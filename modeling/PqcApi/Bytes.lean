/-
Byte strings, and what the server and its libraries do to them.

A `std::string` is a list of bytes: it may hold NULs and need not be UTF-8, and
both matter.  A parameter that crosses a C interface ends at its first NUL; the
database and the JSON writer refuse bytes that are not UTF-8; a `VARCHAR(n)`
column counts characters and silently drops excess trailing spaces.
-/
import Mathlib.Data.List.TakeWhile
import Mathlib.Data.UInt
import Mathlib.Tactic.IntervalCases

namespace PqcApi

/-- `std::string`. -/
abbrev Bytes := List UInt8

/-- The bytes of an ASCII literal of the source. -/
def ascii (s : String) : Bytes := s.toList.map fun c => c.toNat.toUInt8

/-- `c_str()` as C reads it: up to the first NUL. -/
def cstr (s : Bytes) : Bytes := s.takeWhile (· ≠ 0)

theorem cstr_eq_self {s : Bytes} (h : (0 : UInt8) ∉ s) : cstr s = s := by
  refine List.takeWhile_eq_self_iff.mpr fun b hb => ?_
  have hne : b ≠ 0 := fun hc => h (hc ▸ hb)
  simpa using hne

theorem zero_notMem_cstr (s : Bytes) : (0 : UInt8) ∉ cstr s := by
  intro h
  have := List.mem_takeWhile_imp h
  simp at this

/-! ### Splitting -/

/-- What stands before and after the first `sep`, as `find` and `substr` give it. -/
def splitOnce (sep : UInt8) : Bytes → Option (Bytes × Bytes)
  | [] => none
  | c :: rest =>
      if c = sep then some ([], rest)
      else (splitOnce sep rest).map fun p => (c :: p.1, p.2)

theorem splitOnce_append {sep : UInt8} {a b : Bytes} (h : sep ∉ a) :
    splitOnce sep (a ++ sep :: b) = some (a, b) := by
  induction a with
  | nil => simp [splitOnce]
  | cons c rest ih =>
      have hc : c ≠ sep := fun hc => h (by simp [hc])
      have hrest : sep ∉ rest := fun hc => h (by simp [hc])
      simp [splitOnce, hc, ih hrest]

theorem splitOnce_some {sep : UInt8} {s a b : Bytes} (h : splitOnce sep s = some (a, b)) :
    s = a ++ sep :: b ∧ sep ∉ a := by
  induction s generalizing a with
  | nil => simp [splitOnce] at h
  | cons c rest ih =>
      simp only [splitOnce] at h
      by_cases hc : c = sep
      · simp only [hc, if_true, Option.some.injEq, Prod.mk.injEq] at h
        obtain ⟨rfl, rfl⟩ := h
        simp [hc]
      · simp only [hc, if_false, Option.map_eq_some_iff, Prod.mk.injEq, Prod.exists] at h
        obtain ⟨a', b', hab, rfl, rfl⟩ := h
        obtain ⟨hs, hsep⟩ := ih hab
        refine ⟨by rw [hs]; rfl, ?_⟩
        intro hmem
        rcases List.mem_cons.mp hmem with heq | htail
        · exact hc heq.symm
        · exact hsep htail

/-- `.`, the separator of token segments. -/
def dot : UInt8 := 46

/-! ### Decimal numbers -/

/-- The digits of a number, most significant first. -/
def natDecimal (n : Nat) : Bytes := (Nat.toDigits 10 n).map fun c => c.toNat.toUInt8

/-- `std::to_string(int)`. -/
def toDecimal : Int → Bytes
  | .ofNat n => natDecimal n
  | .negSucc n => 45 :: natDecimal (n + 1)

def isDigit (b : UInt8) : Bool := 48 ≤ b && b ≤ 57

def isSpace (b : UInt8) : Bool := b == 32 || (9 ≤ b && b ≤ 13)

/-- The number a string of digits denotes. -/
def digitsValue (ds : Bytes) : Nat := ds.foldl (fun n b => 10 * n + (b.toNat - 48)) 0

/-- An optional sign, and what follows it. -/
def readSign : Bytes → Bool × Bytes
  | [] => (false, [])
  | b :: rest =>
      if b = 45 then (true, rest) else if b = 43 then (false, rest) else (false, b :: rest)

/-- `std::stoi`: leading blanks and a sign are skipped, the digits up to the first other
character are read, and there must be some.  `none` where it throws. -/
def stoi (s : Bytes) : Option Int :=
  let signed := readSign (s.dropWhile isSpace)
  let ds := signed.2.takeWhile isDigit
  let v : Int := if signed.1 then -(digitsValue ds : Int) else digitsValue ds
  if ds = [] then none
  else if -2147483648 ≤ v ∧ v ≤ 2147483647 then some v
  else none

private theorem toNat_digit {c : Char} (h : c.isDigit) :
    48 ≤ c.toNat ∧ c.toNat ≤ 57 ∧ c.toNat.toUInt8.toNat = c.toNat := by
  have hc : 48 ≤ c.toNat ∧ c.toNat ≤ 57 := by
    simp only [Char.isDigit, Bool.and_eq_true, decide_eq_true_eq] at h
    exact ⟨h.1, h.2⟩
  refine ⟨hc.1, hc.2, ?_⟩
  rw [Nat.toUInt8_eq, UInt8.toNat_ofNat']
  omega

theorem isDigit_of_mem_natDecimal {n : Nat} {b : UInt8} (h : b ∈ natDecimal n) :
    isDigit b = true := by
  obtain ⟨c, hc, rfl⟩ := List.mem_map.mp h
  obtain ⟨hlo, hhi, heq⟩ := toNat_digit (Nat.isDigit_of_mem_toDigits (by omega) (by omega) hc)
  simp only [isDigit, Bool.and_eq_true, decide_eq_true_eq, UInt8.le_iff_toNat_le, heq]
  exact ⟨hlo, hhi⟩

theorem natDecimal_ne_nil (n : Nat) : natDecimal n ≠ [] := by
  simp [natDecimal, Nat.toDigits_ne_nil]

private theorem foldl_digits (cs : List Char) (hcs : ∀ c ∈ cs, c.isDigit) :
    ∀ acc : Nat, (cs.map fun c => c.toNat.toUInt8).foldl (fun n b => 10 * n + (b.toNat - 48)) acc
      = Nat.ofDigitChars 10 cs acc := by
  induction cs with
  | nil => intro acc; rfl
  | cons c rest ih =>
      intro acc
      obtain ⟨-, -, heq⟩ := toNat_digit (hcs c (by simp))
      rw [List.map_cons, List.foldl_cons, ih (fun d hd => hcs d (by simp [hd])), heq]
      rfl

@[simp] theorem digitsValue_natDecimal (n : Nat) : digitsValue (natDecimal n) = n := by
  have hds : ∀ c ∈ Nat.toDigits 10 n, c.isDigit :=
    fun c hc => Nat.isDigit_of_mem_toDigits (by omega) (by omega) hc
  rw [digitsValue, natDecimal, foldl_digits _ hds, Nat.ofDigitChars_ten_toDigits]

/-- **Printing an `int` and reading it with `stoi` gives it back.** -/
theorem stoi_toDecimal {n : Int} (hlo : 0 ≤ n) (hhi : n ≤ 2147483647) :
    stoi (toDecimal n) = some n := by
  obtain ⟨k, rfl⟩ := Int.eq_ofNat_of_zero_le hlo
  obtain ⟨b, rest, hcons⟩ := List.exists_cons_of_ne_nil (natDecimal_ne_nil k)
  have hb : isDigit b = true := isDigit_of_mem_natDecimal (n := k) (by rw [hcons]; simp)
  have hall : (natDecimal k).takeWhile isDigit = natDecimal k :=
    List.takeWhile_eq_self_iff.mpr fun c hc => isDigit_of_mem_natDecimal hc
  have hb' : 48 ≤ b.toNat ∧ b.toNat ≤ 57 := by
    simpa [isDigit, UInt8.le_iff_toNat_le] using hb
  have hspace : isSpace b = false := by
    simp only [isSpace, Bool.or_eq_false_iff, beq_eq_false_iff_ne, Bool.and_eq_false_iff,
      decide_eq_false_iff_not, UInt8.le_iff_toNat_le]
    refine ⟨fun hc => ?_, Or.inr ?_⟩
    · rw [hc] at hb'
      exact absurd hb'.1 (by decide)
    · have h13 : (13 : UInt8).toNat = 13 := rfl
      omega
  have hminus : b ≠ 45 := by rintro rfl; exact absurd hb (by decide)
  have hplus : b ≠ 43 := by rintro rfl; exact absurd hb (by decide)
  have hdrop : (natDecimal k).dropWhile isSpace = natDecimal k := by
    rw [hcons, List.dropWhile_cons, if_neg (by simp [hspace])]
  have hsign : readSign (natDecimal k) = (false, natDecimal k) := by
    rw [hcons]
    simp [readSign, hminus, hplus]
  have hrange : -2147483648 ≤ (k : Int) ∧ (k : Int) ≤ 2147483647 := ⟨by omega, hhi⟩
  show stoi (natDecimal k) = _
  simp [stoi, hdrop, hsign, hall, natDecimal_ne_nil, hrange]

/-! ### Hexadecimal -/

/-- `%x` of a four-bit value. -/
def hexDigit (n : Nat) : UInt8 := if n < 10 then UInt8.ofNat (48 + n) else UInt8.ofNat (87 + n)

/-- Each byte through `%02x`. -/
def hex (bs : Bytes) : Bytes :=
  bs.flatMap fun b => [hexDigit (b.toNat / 16), hexDigit (b.toNat % 16)]

private theorem hexDigit_inj : ∀ m < 16, ∀ n < 16, hexDigit m = hexDigit n → m = n := by decide

/-- A hex digit is neither NUL nor a byte above 127. -/
theorem hexDigit_ascii : ∀ n < 16, hexDigit n ≠ 0 ∧ hexDigit n < 128 := by decide

@[simp] theorem hex_nil : hex [] = [] := rfl

@[simp] theorem hex_cons (b : UInt8) (bs : Bytes) :
    hex (b :: bs) = hexDigit (b.toNat / 16) :: hexDigit (b.toNat % 16) :: hex bs := rfl

theorem length_hex (bs : Bytes) : (hex bs).length = 2 * bs.length := by
  induction bs with
  | nil => rfl
  | cons b rest ih =>
      rw [hex_cons, List.length_cons, List.length_cons, List.length_cons, ih]
      omega

theorem hex_injective {a b : Bytes} (h : hex a = hex b) : a = b := by
  induction a generalizing b with
  | nil =>
      cases b with
      | nil => rfl
      | cons y ys => simp at h
  | cons x xs ih =>
      cases b with
      | nil => simp at h
      | cons y ys =>
          simp only [hex_cons, List.cons.injEq] at h
          have hx := UInt8.toNat_lt x
          have hy := UInt8.toNat_lt y
          have h1 := hexDigit_inj _ (by omega) _ (by omega) h.1
          have h2 := hexDigit_inj _ (by omega) _ (by omega) h.2.1
          have hxy : x = y := UInt8.toNat_inj.mp (by omega)
          rw [hxy, ih h.2.2]

theorem hex_ascii {bs : Bytes} {c : UInt8} (h : c ∈ hex bs) : c ≠ 0 ∧ c < 128 := by
  obtain ⟨b, -, hc⟩ := List.mem_flatMap.mp h
  have hb := UInt8.toNat_lt b
  rcases List.mem_pair.mp hc with rfl | rfl
  · exact hexDigit_ascii _ (by omega)
  · exact hexDigit_ascii _ (by omega)

theorem natDecimal_ascii {n : Nat} {c : UInt8} (h : c ∈ natDecimal n) : c ≠ 0 ∧ c < 128 := by
  have hd := isDigit_of_mem_natDecimal h
  simp only [isDigit, Bool.and_eq_true, decide_eq_true_eq, UInt8.le_iff_toNat_le] at hd
  have h48 : (48 : UInt8).toNat = 48 := rfl
  have h57 : (57 : UInt8).toNat = 57 := rfl
  refine ⟨?_, ?_⟩
  · rintro rfl
    exact absurd hd.1 (by decide)
  · rw [UInt8.lt_iff_toNat_lt]
    have h128 : (128 : UInt8).toNat = 128 := rfl
    omega

theorem toDecimal_ascii {n : Int} {c : UInt8} (h : c ∈ toDecimal n) : c ≠ 0 ∧ c < 128 := by
  cases n with
  | ofNat n => exact natDecimal_ascii h
  | negSucc n =>
      rcases List.mem_cons.mp h with rfl | h
      · decide
      · exact natDecimal_ascii h

/-! ### UTF-8 -/

/-- The ranges the bytes after a lead byte must lie in (RFC 3629); `none` if the byte
cannot start a character. -/
def utf8Tail (b : UInt8) : Option (List (UInt8 × UInt8)) :=
  if b < 0x80 then some []
  else if 0xC2 ≤ b ∧ b ≤ 0xDF then some [(0x80, 0xBF)]
  else if b = 0xE0 then some [(0xA0, 0xBF), (0x80, 0xBF)]
  else if b = 0xED then some [(0x80, 0x9F), (0x80, 0xBF)]
  else if 0xE1 ≤ b ∧ b ≤ 0xEF then some [(0x80, 0xBF), (0x80, 0xBF)]
  else if b = 0xF0 then some [(0x90, 0xBF), (0x80, 0xBF), (0x80, 0xBF)]
  else if b = 0xF4 then some [(0x80, 0x8F), (0x80, 0xBF), (0x80, 0xBF)]
  else if 0xF1 ≤ b ∧ b ≤ 0xF3 then some [(0x80, 0xBF), (0x80, 0xBF), (0x80, 0xBF)]
  else none

def utf8From : List (UInt8 × UInt8) → Bytes → Bool
  | [], [] => true
  | _ :: _, [] => false
  | [], b :: rest =>
      match utf8Tail b with
      | some ranges => utf8From ranges rest
      | none => false
  | (lo, hi) :: ranges, b :: rest => lo ≤ b && b ≤ hi && utf8From ranges rest

/-- The bytes are well-formed UTF-8. -/
def utf8 (s : Bytes) : Bool := utf8From [] s

/-- Bytes after a lead byte are 0x80 or more. -/
theorem utf8Tail_high {b : UInt8} {ranges : List (UInt8 × UInt8)} (h : utf8Tail b = some ranges) :
    ∀ r ∈ ranges, 0x80 ≤ r.1 := by
  unfold utf8Tail at h
  repeat' split at h
  all_goals
    cases h
    try simp

/-- What stands before a space is UTF-8 by itself. -/
theorem utf8From_append_space {rest : Bytes} : ∀ {s : Bytes} {ranges : List (UInt8 × UInt8)},
    (∀ r ∈ ranges, 0x80 ≤ r.1) → utf8From ranges (s ++ 32 :: rest) = true →
    utf8From ranges s = true := by
  intro s
  induction s with
  | nil =>
      intro ranges hhigh h
      cases ranges with
      | nil => rfl
      | cons r ranges =>
          have hr := hhigh r (by simp)
          simp only [List.nil_append, utf8From, Bool.and_eq_true, decide_eq_true_eq] at h
          have h32 : (0x80 : UInt8) ≤ 32 := UInt8.le_trans hr h.1.1
          exact absurd h32 (by decide)
  | cons b s ih =>
      intro ranges hhigh h
      cases ranges with
      | nil =>
          cases htail : utf8Tail b with
          | none => simp [utf8From, htail] at h
          | some ranges =>
              simp only [List.cons_append, utf8From, htail] at h ⊢
              exact ih (utf8Tail_high htail) h
      | cons r ranges =>
          simp only [List.cons_append, utf8From, Bool.and_eq_true] at h ⊢
          exact ⟨h.1, ih (fun q hq => hhigh q (by simp [hq])) h.2⟩

theorem utf8_of_ascii {s : Bytes} (h : ∀ b ∈ s, b < 128) : utf8 s = true := by
  induction s with
  | nil => rfl
  | cons b rest ih =>
      have hb : utf8Tail b = some [] := by
        have := h b (by simp)
        simp [utf8Tail, this]
      simp only [utf8, utf8From, hb]
      exact ih fun c hc => h c (by simp [hc])

@[simp] theorem utf8_toDecimal (n : Int) : utf8 (toDecimal n) = true :=
  utf8_of_ascii fun _ hb => (toDecimal_ascii hb).2

@[simp] theorem utf8_hex (bs : Bytes) : utf8 (hex bs) = true :=
  utf8_of_ascii fun _ hb => (hex_ascii hb).2

@[simp] theorem cstr_toDecimal (n : Int) : cstr (toDecimal n) = toDecimal n :=
  cstr_eq_self fun h => (toDecimal_ascii h).1 rfl

/-! ### Text columns -/

/-- The first `n` characters of a UTF-8 text, and the rest.  Bytes 0x80 to 0xBF belong
to the character before them. -/
def splitChars : Nat → Bytes → Bytes × Bytes
  | _, [] => ([], [])
  | n, b :: rest =>
      if 0x80 ≤ b ∧ b ≤ 0xBF then
        let p := splitChars n rest
        (b :: p.1, p.2)
      else
        match n with
        | 0 => ([], b :: rest)
        | n + 1 =>
            let p := splitChars n rest
            (b :: p.1, p.2)

theorem splitChars_append (n : Nat) (s : Bytes) :
    (splitChars n s).1 ++ (splitChars n s).2 = s := by
  induction s generalizing n with
  | nil => rfl
  | cons b rest ih =>
      simp only [splitChars]
      split
      · simp [ih]
      · cases n with
        | zero => rfl
        | succ n => simp [ih]

/-- A value assigned to a `VARCHAR(n)` column: excess characters are an error unless they
are all spaces, and then they are dropped. -/
def varchar (n : Nat) (s : Bytes) : Option Bytes :=
  let p := splitChars n s
  if p.2.all (· == 32) then some p.1 else none

/-- What is kept is the value without spaces at its end. -/
theorem varchar_some {n : Nat} {s t : Bytes} (h : varchar n s = some t) :
    ∃ spaces, s = t ++ spaces ∧ ∀ b ∈ spaces, b = 32 := by
  simp only [varchar] at h
  split at h
  · rename_i hspaces
    rw [← Option.some.inj h]
    exact ⟨_, (splitChars_append n s).symm, by simpa using hspaces⟩
  · cases h

/-- A column of UTF-8 values holds UTF-8. -/
theorem utf8_of_varchar {n : Nat} {s t : Bytes} (hs : utf8 s = true) (h : varchar n s = some t) :
    utf8 t = true := by
  obtain ⟨spaces, rfl, hspaces⟩ := varchar_some h
  cases spaces with
  | nil => simpa using hs
  | cons b rest =>
      obtain rfl := hspaces b (by simp)
      exact utf8From_append_space (by simp) hs

/-- A text parameter as PostgreSQL receives it: NUL-terminated, and refused if it is not
UTF-8. -/
def pgText (s : Bytes) : Option Bytes := if utf8 (cstr s) then some (cstr s) else none

/-- A short value is kept. -/
theorem varchar_of_length {n : Nat} {s : Bytes} (h : s.length ≤ n) : varchar n s = some s := by
  have hsplit : ∀ (s : Bytes) (n : Nat), s.length ≤ n → splitChars n s = (s, []) := by
    intro s
    induction s with
    | nil => intro n _; rfl
    | cons b rest ih =>
        intro n hn
        rw [List.length_cons] at hn
        unfold splitChars
        split
        · rw [ih n (by omega)]
        · cases n with
          | zero => omega
          | succ n => simp only [ih n (by omega)]
  unfold varchar
  rw [hsplit s n h]
  rfl

theorem pgText_eq_some {s t : Bytes} (h : pgText s = some t) : t = cstr s := by
  unfold pgText at h
  split at h
  · exact (Option.some.inj h).symm
  · simp at h

theorem pgText_of_ascii {s : Bytes} (h : ∀ b ∈ s, b ≠ 0 ∧ b < 128) : pgText s = some s := by
  unfold pgText
  rw [cstr_eq_self fun hz => (h 0 hz).1 rfl, utf8_of_ascii fun b hb => (h b hb).2, if_pos rfl]

/-- What a text column stores is UTF-8. -/
theorem utf8_of_stored {n : Nat} {s t : Bytes} (h : (pgText s).bind (varchar n) = some t) :
    utf8 t = true := by
  obtain ⟨u, hu, ht⟩ := Option.bind_eq_some_iff.mp h
  unfold pgText at hu
  split at hu
  · rename_i hutf8
    obtain rfl := Option.some.inj hu
    exact utf8_of_varchar hutf8 ht
  · cases hu

end PqcApi

/-
`Content-Disposition` values, after RFC 6266.

A value is a disposition type and parameters, and a parameter's value is a token, a quoted
string or, where its name ends with a `*`, an extended value of RFC 5987: a charset, a language
and characters that stand for themselves or are written `%XX`.  `parse` reads a text by that
grammar, with blanks wherever it allows them, and `render` writes one without; a well-formed
value is read back from what is written of it, so its text has no other reading.
-/
import PqcApi.Codec.Octets

namespace Disposition

open Octets

/-! ### Characters -/

/-- `tchar`: a character of a token. -/
def isTchar (c : UInt8) : Bool :=
  isAlphanum c || [33, 35, 36, 37, 38, 39, 42, 43, 45, 46, 94, 95, 96, 124, 126].contains c

/-- `qdtext`: a character that stands for itself in a quoted string. -/
def isQdtext (c : UInt8) : Bool := c == 9 || (32 ≤ c && c != 34 && c != 92 && c != 127)

/-- What may follow a backslash in a quoted string. -/
def isQuotable (c : UInt8) : Bool := c == 9 || (32 ≤ c && c != 127)

/-- `mime-charsetc`. -/
def isCharsetChar (c : UInt8) : Bool :=
  isAlphanum c || [33, 35, 36, 37, 38, 43, 45, 94, 95, 96, 123, 125, 126].contains c

/-- A character of a language tag. -/
def isLanguageChar (c : UInt8) : Bool := isAlphanum c || c == 45

/-- `attr-char`: a character that stands for itself in an extended value. -/
def isAttrChar (c : UInt8) : Bool :=
  isAlphanum c || [33, 35, 36, 38, 43, 45, 46, 94, 95, 96, 124, 126].contains c

/-! ### The values -/

/-- A parameter's value, as it is written. -/
inductive Value
  | token (text : List UInt8)
  | quoted (raw : List UInt8)
  | ext (charset language chars : List UInt8)
  deriving DecidableEq

structure Param where
  name : List UInt8
  value : Value
  deriving DecidableEq

end Disposition

structure Disposition where
  type : List UInt8
  params : List Disposition.Param
  deriving DecidableEq

namespace Disposition

open Octets

/-! ### Reading -/

/-- `OWS`. -/
def skipBlanks (s : List UInt8) : List UInt8 := s.dropWhile fun c => c == 32 || c == 9

/-- One or more of these characters. -/
def readSome (p : UInt8 → Bool) (s : List UInt8) : Option (List UInt8 × List UInt8) :=
  if s.takeWhile p = [] then none else some (s.takeWhile p, s.dropWhile p)

/-- This character, and what follows it. -/
def expect (c : UInt8) : List UInt8 → Option (List UInt8)
  | [] => none
  | d :: s => if d = c then some s else none

/-- The rest of a quoted string. -/
def readQuoted : List UInt8 → Option (List UInt8 × List UInt8)
  | [] => none
  | 34 :: s => some ([], s)
  | 92 :: c :: s =>
      if isQuotable c then (readQuoted s).map fun r => (92 :: c :: r.1, r.2) else none
  | c :: s => if isQdtext c then (readQuoted s).map fun r => (c :: r.1, r.2) else none

/-- `value-chars`. -/
def readChars : List UInt8 → List UInt8 × List UInt8
  | [] => ([], [])
  | 37 :: a :: b :: s =>
      if (hexValue a).isSome && (hexValue b).isSome then
        (37 :: a :: b :: (readChars s).1, (readChars s).2)
      else ([], 37 :: a :: b :: s)
  | c :: s => if isAttrChar c then (c :: (readChars s).1, (readChars s).2) else ([], c :: s)

/-- `ext-value`. -/
def parseExt (s : List UInt8) : Option (Value × List UInt8) := do
  let (charset, s) ← readSome isCharsetChar s
  let s ← expect 39 s
  let language := s.takeWhile isLanguageChar
  let s ← expect 39 (s.dropWhile isLanguageChar)
  return (.ext charset language (readChars s).1, (readChars s).2)

/-- `value`. -/
def parsePlain : List UInt8 → Option (Value × List UInt8)
  | 34 :: s => (readQuoted s).map fun r => (.quoted r.1, r.2)
  | s => (readSome isTchar s).map fun r => (.token r.1, r.2)

def parseValue (ext : Bool) (s : List UInt8) : Option (Value × List UInt8) :=
  if ext then parseExt s else parsePlain s

/-- An extended parameter is one whose name ends with a `*`. -/
def isExt (name : List UInt8) : Bool := name.getLast? == some 42

/-- `*( ";" disposition-parm )`, up to the end of the text. -/
def parseParams : Nat → List UInt8 → Option (List Param)
  | 0, _ => none
  | n + 1, s =>
      match skipBlanks s with
      | [] => some []
      | s => do
          let s ← expect 59 s
          let (name, s) ← readSome isTchar (skipBlanks s)
          let s ← expect 61 (skipBlanks s)
          let (value, s) ← parseValue (isExt name) (skipBlanks s)
          let params ← parseParams n s
          return ⟨name, value⟩ :: params

def parse (s : List UInt8) : Option Disposition := do
  let (type, s) ← readSome isTchar (skipBlanks s)
  let params ← parseParams (s.length + 1) s
  return ⟨type, params⟩

/-! ### Writing -/

def Value.render : Value → List UInt8
  | .token text => text
  | .quoted raw => 34 :: raw ++ [34]
  | .ext charset language chars => charset ++ 39 :: language ++ 39 :: chars

def Param.render (p : Param) : List UInt8 := 59 :: 32 :: p.name ++ 61 :: p.value.render

def render (d : Disposition) : List UInt8 := d.type ++ d.params.flatMap Param.render

/-- The inside of a quoted string. -/
inductive Quoted : List UInt8 → Prop
  | nil : Quoted []
  | text {c : UInt8} {s : List UInt8} : isQdtext c = true → Quoted s → Quoted (c :: s)
  | pair {c : UInt8} {s : List UInt8} : isQuotable c = true → Quoted s → Quoted (92 :: c :: s)

theorem quoted_of_forall {s : List UInt8} (h : ∀ c ∈ s, isQdtext c = true) : Quoted s := by
  induction s with
  | nil => exact .nil
  | cons c s ih => exact .text (h c (by simp)) (ih fun d hd => h d (by simp [hd]))

def Token (s : List UInt8) : Prop := s ≠ [] ∧ ∀ c ∈ s, isTchar c = true

def Value.WellFormed : Value → Prop
  | .token text => Token text
  | .quoted raw => Quoted raw
  | .ext charset language chars => (charset ≠ [] ∧ ∀ c ∈ charset, isCharsetChar c = true) ∧
      (∀ c ∈ language, isLanguageChar c = true) ∧ Chars isAttrChar chars

def Value.isExt : Value → Bool
  | .ext .. => true
  | _ => false

structure Param.WellFormed (p : Param) : Prop where
  name : Token p.name
  value : p.value.WellFormed
  ext : Disposition.isExt p.name = p.value.isExt

structure WellFormed (d : Disposition) : Prop where
  type : Token d.type
  params : ∀ p ∈ d.params, p.WellFormed

/-! ### What was written is read back -/

/-- A run of characters ends where the text does, or at one that is not of the run. -/
def Ends (p : UInt8 → Bool) (rest : List UInt8) : Prop := ∀ c ∈ rest.head?, p c = false

theorem ends_cons {p : UInt8 → Bool} {c : UInt8} (h : p c = false) (rest : List UInt8) :
    Ends p (c :: rest) := by
  simpa [Ends] using h

private theorem takeWhile_run {p : UInt8 → Bool} {s rest : List UInt8}
    (hs : ∀ c ∈ s, p c = true) (hrest : Ends p rest) :
    (s ++ rest).takeWhile p = s ∧ (s ++ rest).dropWhile p = rest := by
  rw [List.takeWhile_append_of_pos hs, List.dropWhile_append_of_pos hs]
  cases rest with
  | nil => exact ⟨by simp, rfl⟩
  | cons c rest =>
      have hc : p c = false := hrest c (by simp)
      exact ⟨by simp [hc], by simp [hc]⟩

theorem readSome_append {p : UInt8 → Bool} {s rest : List UInt8} (hne : s ≠ [])
    (hs : ∀ c ∈ s, p c = true) (hrest : Ends p rest) : readSome p (s ++ rest) = some (s, rest) := by
  obtain ⟨htake, hdrop⟩ := takeWhile_run hs hrest
  rw [readSome, htake, hdrop, if_neg hne]

theorem expect_cons (c : UInt8) (s : List UInt8) : expect c (c :: s) = some s := if_pos rfl

/-- Nothing is skipped before a character of the grammar. -/
theorem skipBlanks_cons {c : UInt8} (h : c ≠ 32 ∧ c ≠ 9) (s : List UInt8) :
    skipBlanks (c :: s) = c :: s := by
  rw [skipBlanks, List.dropWhile_cons_of_neg]
  simp [h]

private theorem isTchar_ne : ∀ c, isTchar c = true → c ≠ 32 ∧ c ≠ 9 ∧ c ≠ 34 :=
  forall_octet (by decide +kernel)

theorem skipBlanks_token {s : List UInt8} (hs : Token s) (rest : List UInt8) :
    skipBlanks (s ++ rest) = s ++ rest := by
  obtain ⟨c, t, rfl⟩ := List.exists_cons_of_ne_nil hs.1
  have hc := isTchar_ne c (hs.2 c (by simp))
  exact skipBlanks_cons ⟨hc.1, hc.2.1⟩ _

private theorem isQdtext_ne : ∀ c, isQdtext c = true → c ≠ 34 ∧ c ≠ 92 :=
  forall_octet (by decide +kernel)

theorem readQuoted_append {raw : List UInt8} (h : Quoted raw) (rest : List UInt8) :
    readQuoted (raw ++ 34 :: rest) = some (raw, rest) := by
  induction h with
  | nil => rfl
  | @text c s hc _ ih =>
      obtain ⟨hquote, hbackslash⟩ := isQdtext_ne c hc
      rw [List.cons_append, readQuoted]
      · rw [if_pos hc, ih]
        rfl
      · exact hquote
      · exact fun _ _ h => absurd h hbackslash
  | @pair c s hc _ ih =>
      rw [List.cons_append, List.cons_append, readQuoted, if_pos hc, ih]
      rfl

/-- What ends an extended value. -/
def EndsChars (rest : List UInt8) : Prop := ∀ c ∈ rest.head?, isAttrChar c = false ∧ c ≠ 37

private theorem isAttrChar_ne : ∀ c, isAttrChar c = true → c ≠ 37 :=
  forall_octet (by decide +kernel)

theorem readChars_append {s rest : List UInt8} (h : Chars isAttrChar s) (hrest : EndsChars rest) :
    readChars (s ++ rest) = (s, rest) := by
  induction h with
  | nil =>
      cases rest with
      | nil => rfl
      | cons c rest =>
          obtain ⟨hattr, hpercent⟩ := hrest c (by simp)
          rw [List.nil_append, readChars]
          · rw [hattr, if_neg Bool.false_ne_true]
          · exact fun _ _ _ h => absurd h hpercent
  | @char c s hc _ ih =>
      rw [List.cons_append, readChars]
      · rw [if_pos hc, ih]
      · exact fun _ _ _ h => absurd h (isAttrChar_ne c hc)
  | @triplet a b s ha hb _ ih =>
      rw [List.cons_append, List.cons_append, List.cons_append, readChars, ih]
      simp [ha, hb]

/-- What may follow a value: the end, or the next parameter. -/
def Next (rest : List UInt8) : Prop := ∀ c ∈ rest.head?, c = 59

theorem Next.ends {p : UInt8 → Bool} {rest : List UInt8} (h : Next rest) (hp : p 59 = false) :
    Ends p rest := by
  intro c hc
  rw [h c hc]
  exact hp

private theorem isCharsetChar_ne : ∀ c, isCharsetChar c = true → c ≠ 32 ∧ c ≠ 9 :=
  forall_octet (by decide +kernel)

theorem parsePlain_token {text rest : List UInt8} (h : Token text) (hrest : Next rest) :
    parsePlain (text ++ rest) = some (.token text, rest) := by
  have hread := readSome_append h.1 h.2 (hrest.ends (by decide : isTchar 59 = false))
  obtain ⟨c, t, rfl⟩ := List.exists_cons_of_ne_nil h.1
  have hquote := (isTchar_ne c (h.2 c (by simp))).2.2
  rw [List.cons_append] at hread ⊢
  rw [parsePlain]
  · rw [hread]
    rfl
  · exact fun s hs => hquote (List.cons.inj hs).1

theorem parsePlain_quoted {raw rest : List UInt8} (h : Quoted raw) :
    parsePlain (34 :: raw ++ [34] ++ rest) = some (.quoted raw, rest) := by
  have hshape : 34 :: raw ++ [34] ++ rest = 34 :: (raw ++ 34 :: rest) := by simp
  rw [hshape, parsePlain, readQuoted_append h]
  rfl

theorem parseExt_render {charset language chars rest : List UInt8}
    (hcharset : charset ≠ [] ∧ ∀ c ∈ charset, isCharsetChar c = true)
    (hlanguage : ∀ c ∈ language, isLanguageChar c = true) (hchars : Chars isAttrChar chars)
    (hrest : Next rest) :
    parseExt (charset ++ 39 :: language ++ 39 :: chars ++ rest) =
      some (.ext charset language chars, rest) := by
  have hshape : charset ++ 39 :: language ++ 39 :: chars ++ rest =
      charset ++ 39 :: (language ++ 39 :: (chars ++ rest)) := by simp
  have hread := readSome_append hcharset.1 hcharset.2
    (ends_cons (by decide : isCharsetChar 39 = false) (language ++ 39 :: (chars ++ rest)))
  obtain ⟨htake, hdrop⟩ := takeWhile_run hlanguage
    (ends_cons (by decide : isLanguageChar 39 = false) (chars ++ rest))
  have hend : EndsChars rest := by
    intro c hc
    rw [hrest c hc]
    decide
  simp only [parseExt, hshape, hread, Option.bind_eq_bind, Option.bind_some, expect_cons, htake,
    hdrop, readChars_append hchars hend, Option.pure_def]

/-- **A value is read back**, at the end of the text or before the next parameter. -/
theorem parseValue_render {v : Value} (hv : v.WellFormed) {rest : List UInt8} (hrest : Next rest) :
    parseValue v.isExt (skipBlanks (v.render ++ rest)) = some (v, rest) := by
  cases v with
  | token text =>
      have hskip : skipBlanks ((Value.token text).render ++ rest) = text ++ rest :=
        skipBlanks_token hv rest
      rw [hskip]
      exact parsePlain_token hv hrest
  | quoted raw =>
      have hskip : skipBlanks ((Value.quoted raw).render ++ rest) = 34 :: raw ++ [34] ++ rest :=
        skipBlanks_cons (by decide) _
      rw [hskip]
      exact parsePlain_quoted hv
  | ext charset language chars =>
      obtain ⟨hcharset, hlanguage, hchars⟩ := hv
      have hskip : skipBlanks ((Value.ext charset language chars).render ++ rest) =
          charset ++ 39 :: language ++ 39 :: chars ++ rest := by
        obtain ⟨c, t, rfl⟩ := List.exists_cons_of_ne_nil hcharset.1
        exact skipBlanks_cons (isCharsetChar_ne c (hcharset.2 c (by simp))) _
      rw [hskip]
      exact parseExt_render hcharset hlanguage hchars hrest

theorem next_flatMap (params : List Param) : Next (params.flatMap Param.render) := by
  cases params with
  | nil => simp [Next]
  | cons p params => simp [Next, Param.render]

theorem parseParams_render : ∀ {params : List Param} {n : Nat}, (∀ p ∈ params, p.WellFormed) →
    params.length < n → parseParams n (params.flatMap Param.render) = some params := by
  intro params
  induction params with
  | nil =>
      intro n _ hn
      cases n with
      | zero => omega
      | succ n => rfl
  | cons p params ih =>
      intro n hall hn
      cases n with
      | zero => omega
      | succ n =>
          obtain ⟨hname, hvalue, hext⟩ := hall p (by simp)
          have htail := ih (n := n) (fun q hq => hall q (by simp [hq]))
            (by simpa using hn)
          let after := p.value.render ++ params.flatMap Param.render
          have hshape : (p :: params).flatMap Param.render =
              59 :: 32 :: (p.name ++ 61 :: after) := by
            simp [Param.render, after]
          have hstart : skipBlanks ((p :: params).flatMap Param.render) =
              59 :: 32 :: (p.name ++ 61 :: after) := by
            rw [hshape]
            exact skipBlanks_cons (by decide) _
          have hblank : skipBlanks (32 :: (p.name ++ 61 :: after)) = p.name ++ 61 :: after :=
            (List.dropWhile_cons_of_pos (by decide)).trans (skipBlanks_token hname _)
          have hread := readSome_append hname.1 hname.2
            (ends_cons (by decide : isTchar 61 = false) after)
          have hequals : skipBlanks (61 :: after) = 61 :: after := skipBlanks_cons (by decide) _
          have hparsed := parseValue_render hvalue (next_flatMap params)
          simp only [parseParams, hstart, Option.bind_eq_bind, Option.bind_some, expect_cons,
            hblank, hread, hequals, hext, hparsed, after, htail, Option.pure_def]

/-- The text has a character for each parameter, at least. -/
theorem length_le_flatMap (params : List Param) :
    params.length ≤ (params.flatMap Param.render).length := by
  induction params with
  | nil => simp
  | cons p params ih =>
      simp only [List.flatMap_cons, Param.render, List.length_append, List.length_cons]
      omega

/-- **What is written of a well-formed value is read as that value.** -/
theorem parse_render {d : Disposition} (h : d.WellFormed) : parse d.render = some d := by
  have hends : Ends isTchar (d.params.flatMap Param.render) :=
    (next_flatMap d.params).ends (by decide)
  have hlength := Nat.lt_succ_of_le (length_le_flatMap d.params)
  simp only [parse, render, skipBlanks_token h.type, readSome_append h.type.1 h.type.2 hends,
    Option.bind_eq_bind, Option.bind_some, parseParams_render h.params hlength, Option.pure_def]

end Disposition

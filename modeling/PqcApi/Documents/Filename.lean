/-
The name of a downloaded file.

`download` sends the stored name in a `Content-Disposition` header, once in an ASCII fallback and
once percent-encoded.  Whatever the name is, the header is the disposition `attachment` with
these two parameters and nothing else, and the encoded one holds the name exactly.
-/
import Mathlib.Data.Bool.AllAny
import PqcApi.Api.Controllers
import PqcApi.Codec.Disposition

namespace PqcApi

open Octets

/-- The characters that `filename*` holds as they are. -/
def isPlain (c : UInt8) : Bool := isAlnum c || c == 46 || c == 45 || c == 95

/-- The name in the quoted string. -/
def fallbackName (filename : Bytes) : Bytes :=
  if filename = [] then ascii "document.pdf"
  else filename.map fun c => if unsafeByte c then 95 else c

/-- The name that is encoded. -/
def exactName (filename : Bytes) : Bytes :=
  if filename = [] then ascii "document.pdf" else filename

/-- What the header says. -/
def fileDisposition (filename : Bytes) : Disposition where
  type := ascii "attachment"
  params :=
    [⟨ascii "filename", .quoted (fallbackName filename)⟩,
      ⟨ascii "filename*", .ext (ascii "UTF-8") [] (percentEncode isPlain (exactName filename))⟩]

/-- The two loops, and the name that stands for no name. -/
theorem contentDisposition_eq (filename : Bytes) :
    contentDisposition filename = ascii "attachment; filename=\"" ++ fallbackName filename ++
      ascii "\"; filename*=UTF-8''" ++ percentEncode isPlain (exactName filename) := by
  by_cases hnil : filename = []
  · subst hnil
    decide +kernel
  · have hmap : filename.map (fun c => if unsafeByte c then 95 else c) ≠ [] := by
      simpa using hnil
    simp only [contentDisposition, fallbackName, exactName, hnil, hmap, if_false]
    rfl

/-- The header is that value, written out. -/
theorem contentDisposition_render (filename : Bytes) :
    contentDisposition filename = (fileDisposition filename).render := by
  have hbefore : ascii "attachment; filename=\"" =
      ascii "attachment" ++ 59 :: 32 :: ascii "filename" ++ [61, 34] := by decide
  have hbetween : ascii "\"; filename*=UTF-8''" =
      34 :: 59 :: 32 :: ascii "filename*" ++ 61 :: ascii "UTF-8" ++ [39, 39] := by decide
  rw [contentDisposition_eq, hbefore, hbetween]
  simp only [fileDisposition, Disposition.render, List.flatMap_cons, List.flatMap_nil,
    Disposition.Param.render, Disposition.Value.render, List.append_assoc, List.cons_append,
    List.nil_append, List.append_nil]

/-! ### The two names -/

private theorem unsafeByte_spec : ∀ c, unsafeByte c = false →
    0x20 ≤ c ∧ c ≤ 0x7e ∧ c ≠ 34 ∧ c ≠ 92 ∧ Disposition.isQdtext c = true :=
  forall_octet (by decide +kernel)

private theorem safe_fallback : unsafeByte 95 = false ∧
    ∀ c ∈ ascii "document.pdf", unsafeByte c = false :=
  ⟨by decide, List.all_iff_forall_prop.mp (by decide)⟩

/-- The quoted name holds no byte that is unsafe there. -/
theorem unsafeByte_fallbackName {filename : Bytes} {c : UInt8} (h : c ∈ fallbackName filename) :
    unsafeByte c = false := by
  unfold fallbackName at h
  by_cases hnil : filename = []
  · rw [if_pos hnil] at h
    exact safe_fallback.2 c h
  · rw [if_neg hnil] at h
    obtain ⟨d, -, rfl⟩ := List.mem_map.mp h
    by_cases hd : unsafeByte d = true
    · rw [if_pos hd]
      exact safe_fallback.1
    · rw [if_neg hd]
      simpa using hd

theorem length_fallbackName {filename : Bytes} (h : filename ≠ []) :
    (fallbackName filename).length = filename.length := by
  rw [fallbackName, if_neg h, List.length_map]

private theorem isPlain_spec : ∀ c, isPlain c = true →
    isUnreserved c = true ∧ Disposition.isAttrChar c = true := forall_octet (by decide +kernel)

/-- The encoded name is unreserved characters and triplets. -/
theorem chars_exactName (filename : Bytes) :
    Chars isUnreserved (percentEncode isPlain (exactName filename)) :=
  (chars_percentEncode isPlain _).mono fun c hc => (isPlain_spec c hc).1

private theorem unreserved_spec : ∀ c, isUnreserved c = true ∨ c = 37 ∨ isAlphanum c = true →
    0x20 ≤ c ∧ c ≤ 0x7e ∧ c ∉ [34, 59, 44, 32] := forall_octet (by decide +kernel)

theorem percentDecode_exactName (filename : Bytes) :
    percentDecode (percentEncode isPlain (exactName filename)) = some (exactName filename) :=
  percentDecode_encode (by decide) _

/-! ### The header -/

theorem fileDisposition_wellFormed (filename : Bytes) : (fileDisposition filename).WellFormed := by
  have htype : Disposition.Token (ascii "attachment") :=
    ⟨by decide, List.all_eq_true.mp (by decide)⟩
  have hname : Disposition.Token (ascii "filename") :=
    ⟨by decide, List.all_eq_true.mp (by decide)⟩
  have hext : Disposition.Token (ascii "filename*") :=
    ⟨by decide, List.all_eq_true.mp (by decide)⟩
  have hcharset : ascii "UTF-8" ≠ [] ∧ ∀ c ∈ ascii "UTF-8", Disposition.isCharsetChar c = true :=
    ⟨by decide, List.all_eq_true.mp (by decide)⟩
  have hquoted : Disposition.Quoted (fallbackName filename) :=
    Disposition.quoted_of_forall fun c hc =>
      (unsafeByte_spec c (unsafeByte_fallbackName hc)).2.2.2.2
  refine ⟨htype, fun p hp => ?_⟩
  rcases List.mem_pair.mp hp with rfl | rfl
  · exact ⟨hname, hquoted, rfl⟩
  · exact ⟨hext, ⟨hcharset, by simp,
      (chars_percentEncode isPlain _).mono fun c hc => (isPlain_spec c hc).2⟩, rfl⟩

/-- Every octet of the header is printable. -/
theorem contentDisposition_printable (filename : Bytes) :
    ∀ c ∈ contentDisposition filename, 0x20 ≤ c ∧ c ≤ 0x7e := by
  have hfixed : (∀ c ∈ ascii "attachment; filename=\"", (0x20 : UInt8) ≤ c ∧ c ≤ 0x7e) ∧
      ∀ c ∈ ascii "\"; filename*=UTF-8''", (0x20 : UInt8) ≤ c ∧ c ≤ 0x7e :=
    ⟨List.all_iff_forall_prop.mp (by decide), List.all_iff_forall_prop.mp (by decide)⟩
  rw [contentDisposition_eq]
  simp only [List.forall_mem_append]
  refine ⟨⟨⟨hfixed.1, fun c hc => ?_⟩, hfixed.2⟩, fun c hc => ?_⟩
  · have hspec := unsafeByte_spec c (unsafeByte_fallbackName hc)
    exact ⟨hspec.1, hspec.2.1⟩
  · have hspec := unreserved_spec c ((chars_exactName filename).mem hc)
    exact ⟨hspec.1, hspec.2.1⟩

theorem parse_contentDisposition (filename : Bytes) :
    Disposition.parse (contentDisposition filename) = some (fileDisposition filename) := by
  rw [contentDisposition_render]
  exact Disposition.parse_render (fileDisposition_wellFormed filename)

/-- **The header cannot be broken out of, and holds the name.** -/
theorem contentDisposition_reads (filename : Bytes) :
    (∀ c ∈ contentDisposition filename, 0x20 ≤ c ∧ c ≤ 0x7e) ∧
    (∃ quoted encoded,
      Disposition.parse (contentDisposition filename) = some ⟨ascii "attachment",
        [⟨ascii "filename", .quoted quoted⟩,
          ⟨ascii "filename*", .ext (ascii "UTF-8") [] encoded⟩]⟩ ∧
      34 ∉ quoted ∧ 92 ∉ quoted ∧
      (filename ≠ [] → quoted.length = filename.length) ∧
      Chars isUnreserved encoded ∧ (∀ c ∈ encoded, c ∉ [34, 59, 44, 32]) ∧
      percentDecode encoded =
        some (if filename = [] then ascii "document.pdf" else filename)) ∧
    ∀ filename', filename ≠ [] → filename' ≠ [] →
      contentDisposition filename = contentDisposition filename' → filename = filename' := by
  refine ⟨contentDisposition_printable filename, ⟨_, _, parse_contentDisposition filename, ?_, ?_,
    length_fallbackName, chars_exactName filename, fun c hc => ?_,
    percentDecode_exactName filename⟩, fun filename' hne hne' heq => ?_⟩
  · exact fun h => (unsafeByte_spec _ (unsafeByte_fallbackName h)).2.2.1 rfl
  · exact fun h => (unsafeByte_spec _ (unsafeByte_fallbackName h)).2.2.2.1 rfl
  · exact (unreserved_spec c ((chars_exactName filename).mem hc)).2.2
  · -- one header is read in one way, and decoded in one way
    have hparse := parse_contentDisposition filename
    rw [heq, parse_contentDisposition filename'] at hparse
    have hencoded : percentEncode isPlain (exactName filename') =
        percentEncode isPlain (exactName filename) := by
      have hparams := congrArg Disposition.params (Option.some.inj hparse)
      simp only [fileDisposition, List.cons.injEq, Disposition.Param.mk.injEq,
        Disposition.Value.ext.injEq, true_and, and_true] at hparams
      exact hparams.2
    have hname := percentDecode_exactName filename
    rw [← hencoded, percentDecode_exactName filename', exactName, exactName, if_neg hne,
      if_neg hne'] at hname
    exact (Option.some.inj hname).symm

end PqcApi

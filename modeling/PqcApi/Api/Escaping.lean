/-
Escaping text for the pages.

The three pages put values into HTML through a function `escHtml` of their own.  All are chains of
global replacements in the same order; the dashboard and the verification page replace five
characters, and the administration page leaves the apostrophe out.
-/
import Mathlib.Data.Bool.AllAny
import PqcApi.Codec.Escape

namespace PqcApi

/-- A JavaScript string: UTF-16 code units. -/
abbrev JsString := List UInt16

/-- The code units of an ASCII constant. -/
def units (s : String) : JsString := s.toList.map fun c => UInt16.ofNat c.toNat

/-- `.replace(/c/g, entity)`. -/
def entity (c : UInt16) (text : String) : Escape.Rule UInt16 := ⟨c, units text⟩

namespace Dashboard

/-- The replacements of `escHtml`: of `&`, `<`, `>`, the quotation mark and the apostrophe. -/
def entities : List (Escape.Rule UInt16) :=
  [entity 38 "&amp;", entity 60 "&lt;", entity 62 "&gt;", entity 34 "&quot;", entity 39 "&#39;"]

def escHtml (s : JsString) : JsString := Escape.replaceEach entities s

end Dashboard

namespace Verify

def entities : List (Escape.Rule UInt16) :=
  [entity 38 "&amp;", entity 60 "&lt;", entity 62 "&gt;", entity 34 "&quot;", entity 39 "&#39;"]

def escHtml (s : JsString) : JsString := Escape.replaceEach entities s

end Verify

namespace Admin

def entities : List (Escape.Rule UInt16) :=
  [entity 38 "&amp;", entity 60 "&lt;", entity 62 "&gt;", entity 34 "&quot;"]

def escHtml (s : JsString) : JsString := Escape.replaceEach entities s

end Admin

/-! ### What a page needs -/

/-- The escaping of one text, by replacements that write these entities. -/
structure Escapes (escHtml : JsString → JsString) (entities : List (Escape.Rule UInt16))
    (s : JsString) : Prop where
  /-- None of the characters that mean something in HTML is left, apart from `&`. -/
  clean : ∀ c ∈ escHtml s, c ∉ ([60, 62, 34, 39] : List UInt16)
  /-- Every `&` begins an entity. -/
  begins : ∀ pre post, escHtml s = pre ++ 38 :: post → ∃ e ∈ entities, e.text <+: 38 :: post
  lossless : Escape.decode entities (escHtml s) = s
  /-- Element text goes on to the next tag, and a quoted attribute to its closing quote. -/
  contained : ∀ d ∈ ([60, 34, 39] : List UInt16), ∀ rest,
    (escHtml s ++ d :: rest).takeWhile (fun c => decide (c ≠ d)) = escHtml s

theorem reversible_dashboard : Escape.Reversible 38 Dashboard.entities where
  ordered := by decide +kernel
  marked := by decide +kernel
  own := ⟨entity 38 "&amp;", by decide, rfl⟩
  free := by decide +kernel

theorem reversible_admin : Escape.Reversible 38 Admin.entities where
  ordered := by decide +kernel
  marked := by decide +kernel
  own := ⟨entity 38 "&amp;", by decide, rfl⟩
  free := by decide +kernel

/-- A chain of replacements escapes a text that holds no special character but those with an
entity, when no entity holds one itself. -/
theorem escapes_of_reversible {entities : List (Escape.Rule UInt16)} {s : JsString}
    (h : Escape.Reversible 38 entities)
    (htexts : ∀ c ∈ ([60, 62, 34, 39] : List UInt16), ∀ e ∈ entities, c ∉ e.text)
    (hs : ∀ c ∈ ([60, 62, 34, 39] : List UInt16), c ∈ s → ∃ e ∈ entities, e.char = c) :
    Escapes (Escape.replaceEach entities) entities s := by
  have heq := Escape.replaceEach_eq_escape h.ordered s
  have hclean : ∀ c ∈ Escape.replaceEach entities s, c ∉ ([60, 62, 34, 39] : List UInt16) := by
    intro c hc hspecial
    rw [heq] at hc
    rcases Escape.mem_escape hc with ⟨e, he, hc⟩ | ⟨hc, hnone⟩
    · exact htexts c hspecial e he hc
    · obtain ⟨e, he, hchar⟩ := hs c hspecial hc
      exact hnone e he hchar
  have hsub : ∀ d ∈ ([60, 34, 39] : List UInt16), d ∈ ([60, 62, 34, 39] : List UInt16) := by simp
  refine ⟨hclean, fun pre post hsplit => ?_, ?_, fun d hd rest => ?_⟩
  · rw [heq] at hsplit
    exact h.mark_begins hsplit
  · rw [heq]
    exact h.decode_escape s
  · exact Escape.takeWhile_until (fun hmem => hclean d hmem (hsub d hd)) rest

theorem escapes_dashboard (s : JsString) : Escapes Dashboard.escHtml Dashboard.entities s := by
  have hentity : ∀ c ∈ ([60, 62, 34, 39] : List UInt16),
      ∃ e ∈ Dashboard.entities, e.char = c := List.all_iff_forall_prop.mp (by decide +kernel)
  have htexts : ∀ c ∈ ([60, 62, 34, 39] : List UInt16), ∀ e ∈ Dashboard.entities, c ∉ e.text :=
    List.all_iff_forall_prop.mp (by decide +kernel)
  exact escapes_of_reversible reversible_dashboard htexts fun c hc _ => hentity c hc

theorem escapes_admin {s : JsString} (h : 39 ∉ s) : Escapes Admin.escHtml Admin.entities s := by
  have hentity : ∀ c ∈ ([60, 62, 34, 39] : List UInt16), c = 39 ∨
      ∃ e ∈ Admin.entities, e.char = c := List.all_iff_forall_prop.mp (by decide +kernel)
  have htexts : ∀ c ∈ ([60, 62, 34, 39] : List UInt16), ∀ e ∈ Admin.entities, c ∉ e.text :=
    List.all_iff_forall_prop.mp (by decide +kernel)
  refine escapes_of_reversible reversible_admin htexts fun c hc hmem => ?_
  rcases hentity c hc with rfl | he
  · exact absurd hmem h
  · exact he

/-- The administration page leaves an apostrophe where it is. -/
theorem apostrophe_mem_admin {s : JsString} (h : 39 ∈ s) : 39 ∈ Admin.escHtml s := by
  have hnone : ∀ e ∈ Admin.entities, e.char ≠ 39 := by decide
  rw [Admin.escHtml, Escape.replaceEach_eq_escape reversible_admin.ordered]
  exact Escape.mem_escape_of_forall h hnone

/-- Without an apostrophe the shorter chain does what the longer one does. -/
theorem admin_eq_dashboard {s : JsString} (h : 39 ∉ s) :
    Admin.escHtml s = Dashboard.escHtml s := by
  have hsplit : Dashboard.entities = Admin.entities ++ [entity 39 "&#39;"] := rfl
  have hkept : 39 ∉ Admin.escHtml s := fun hmem => by
    exact (escapes_admin h).clean 39 hmem (by decide)
  rw [Dashboard.escHtml, hsplit, Escape.replaceEach, List.foldl_append]
  show _ = Escape.replaceAll 39 (units "&#39;") (Admin.escHtml s)
  rw [Escape.replaceAll_eq_self hkept]

/-- **When the three pages escape alike, and completely.**  Exactly on the texts without an
apostrophe. -/
theorem escHtml_complete_iff (s : JsString) :
    (Escapes Dashboard.escHtml Dashboard.entities s ∧ Escapes Verify.escHtml Verify.entities s ∧
      Escapes Admin.escHtml Admin.entities s ∧ Dashboard.escHtml s = Verify.escHtml s ∧
      Verify.escHtml s = Admin.escHtml s) ↔ 39 ∉ s := by
  constructor
  · rintro ⟨-, -, hadmin, -, -⟩ hmem
    exact hadmin.clean 39 (apostrophe_mem_admin hmem) (by decide)
  · intro h
    exact ⟨escapes_dashboard s, escapes_dashboard s, escapes_admin h, rfl,
      (admin_eq_dashboard h).symm⟩

/-- **An apostrophe on the administration page.**  It is left as it is, where the other pages
write an entity, and ends an attribute in single quotes. -/
theorem apostrophe_admin :
    Admin.escHtml (units "it's") = units "it's" ∧
    Dashboard.escHtml (units "it's") = units "it&#39;s" ∧
    Verify.escHtml (units "it's") = units "it&#39;s" ∧
    ¬ Escapes Admin.escHtml Admin.entities (units "it's") := by
  refine ⟨by decide, by decide, by decide, fun h => ?_⟩
  exact h.clean 39 (apostrophe_mem_admin (by decide)) (by decide)

end PqcApi

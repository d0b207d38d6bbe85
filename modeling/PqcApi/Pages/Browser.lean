/-
What the pages share.

A page reads the JSON of an answer as JavaScript does, and writes HTML with template literals.
What the browser does by itself is a parameter: how it decodes a text, how it writes a date, and
how it resolves character references.
-/
import PqcApi.Api.Controllers
import PqcApi.Api.Escaping
import PqcApi.Html.Tokenizer

namespace PqcApi

open Html

/-- What a page leaves to the browser. -/
structure Browser where
  /-- the text of a JSON string -/
  text : Bytes → JsString
  /-- `String(v)` of a value other than a string, an integer, a boolean, null and undefined -/
  other : Json → JsString
  /-- `new Date(s).toLocaleString(..)` -/
  date : Option Json → JsString
  /-- character references -/
  refs : JsString → JsString

/-- `v.key`; nothing for undefined. -/
def Json.member (j : Json) (key : String) : Option Json :=
  match j with
  | .obj fields => (fields.find? fun f => f.1 = ascii key).map Prod.snd
  | _ => none

theorem Json.find_insertField (k key : Bytes) (v : Json) : ∀ fields : List (Bytes × Json),
    (∀ f ∈ fields, f.1 ≠ k) → (insertField k v fields).find? (fun f => f.1 = key) =
      if k = key then some (k, v) else fields.find? fun f => f.1 = key := by
  intro fields
  induction fields with
  | nil =>
      intro _
      by_cases hkey : k = key <;> simp [insertField, hkey]
  | cons f fields ih =>
      intro hne
      have hrest := ih fun g hg => hne g (List.mem_cons_of_mem f hg)
      have hf : f.1 ≠ k := hne f List.mem_cons_self
      unfold insertField
      split
      · by_cases hkey : k = key <;> simp [List.find?_cons, hkey]
      · by_cases hkey : k = key
        · subst hkey
          simp [hf, hrest]
        · rw [if_neg hkey] at hrest ⊢
          simp only [List.find?_cons, hrest]

theorem Json.mem_insertField {k : Bytes} {v : Json} {f : Bytes × Json} :
    ∀ {fields : List (Bytes × Json)}, f ∈ insertField k v fields → f = (k, v) ∨ f ∈ fields := by
  intro fields
  induction fields with
  | nil => intro h; exact Or.inl (List.mem_singleton.mp h)
  | cons g fields ih =>
      intro h
      unfold insertField at h
      split at h
      · exact List.mem_cons.mp h
      · rcases List.mem_cons.mp h with rfl | h
        · exact Or.inr List.mem_cons_self
        · exact (ih h).imp_right (List.mem_cons_of_mem g)

/-- A member of an object that was written with these keys. -/
theorem Json.member_object {fields : List (String × Json)} {key : String}
    (hkeys : (fields.map fun f => ascii f.1).Nodup) : (object fields).member key =
      (fields.find? fun f => ascii f.1 = ascii key).map Prod.snd := by
  have hsub : ∀ (fields : List (String × Json)) (f : Bytes × Json),
      f ∈ fields.foldr (fun f acc => insertField (ascii f.1) f.2 acc) [] →
        f.1 ∈ fields.map fun f => ascii f.1 := by
    intro fields
    induction fields with
    | nil => intro f h; cases h
    | cons g fields ih =>
        intro f h
        rcases mem_insertField h with rfl | h
        · exact List.mem_cons_self
        · exact List.mem_cons_of_mem _ (ih f h)
  show (List.find? _ (fields.foldr _ [])).map Prod.snd = _
  induction fields with
  | nil => rfl
  | cons g fields ih =>
      obtain ⟨hg, hrest⟩ := List.nodup_cons.mp hkeys
      have hnew : ∀ f ∈ fields.foldr (fun f acc => insertField (ascii f.1) f.2 acc) [],
          f.1 ≠ ascii g.1 := by
        intro f hf heq
        have hmem := hsub fields f hf
        rw [heq] at hmem
        exact hg hmem
      rw [List.foldr_cons, find_insertField _ _ _ _ hnew, List.find?_cons]
      by_cases hkey : ascii g.1 = ascii key
      · simp [hkey]
      · rw [if_neg hkey, ih hrest]
        simp [hkey]

/-- `String(n)` of an integer. -/
def numberText (n : Int) : JsString :=
  (toDecimal n).map UInt8.toUInt16

namespace Browser

/-- `String(v)`. -/
def string (B : Browser) : Option Json → JsString
  | none => units "undefined"
  | some .null => units "null"
  | some (.bool b) => units (if b then "true" else "false")
  | some (.int n) => numberText n
  | some (.str s) => B.text s
  | some j => B.other j

/-- Whether a condition holds of `v`. -/
def truthy (B : Browser) : Option Json → Bool
  | none => false
  | some .null => false
  | some (.bool b) => b
  | some (.int n) => decide (n ≠ 0)
  | some (.real q) => decide (q ≠ 0)
  | some (.str s) => decide (B.text s ≠ [])
  | some _ => true

/-- `String(v || s)`. -/
def stringOr (B : Browser) (v : Option Json) (s : String) : JsString :=
  if B.truthy v then B.string v else units s

end Browser

/-- What the functions of `Api` return: `ok`, and the JSON of the body.  Nothing where the page
comes to no end, because the body is no JSON or has no members to read. -/
def apiAnswer (r : HttpResponse) : Option (Bool × Json) :=
  match r.body with
  | .json .null => none
  | .json data => some (decide (200 ≤ r.status ∧ r.status < 300), data)
  | .file .. => none

/-! ### Templates -/

section Templates

variable {ι : Type}

/-- A template literal between two holes. -/
def lit (s : String) : List (Sym ι) :=
  (units s).map .unit

theorem plain_fill_lit (v : ι → JsString) (s : String) : plain (fill v (lit s)) = units s := by
  rw [lit, fill_units, plain_units]

/-- What is escaped stays where it is written. -/
theorem contained_escHtml (shown : ι → JsString) :
    Contained fun i => Dashboard.escHtml (shown i) := by
  intro i
  have hclean := (escapes_dashboard (shown i)).clean
  exact ⟨fun hmem => hclean 60 hmem (by simp), fun hmem => hclean 34 hmem (by simp)⟩

/-- And is read as what it was. -/
theorem refs_escHtml {B : Browser} (hrefs : Resolves B.refs Dashboard.entities)
    (shown : ι → JsString) {symbols : List (Sym ι)} (hplain : 38 ∉ plain symbols) :
    B.refs (plain (fill (fun i => Dashboard.escHtml (shown i)) symbols)) =
      plain (fill shown symbols) := by
  refine refs_fill hrefs reversible_dashboard.own (fun i => ?_) hplain
  exact Escape.replaceEach_eq_escape reversible_dashboard.ordered (shown i)

end Templates

end PqcApi

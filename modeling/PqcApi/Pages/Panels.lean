/-
Panels that say whether a signature is valid.

The verification page and the dashboard write the same kind of panel: an icon, a label and a line
of detail, with texts of the server in the line only.  The label is what a user relies on, so the
one fact here is that the browser reads the label that was meant, and no other, whatever stands
in the line: `reads_html`.
-/
import PqcApi.Pages.Browser

namespace PqcApi

open Html

/-- A panel: the class of the element it is put into, its label, its line of detail and its
whole template. -/
structure Panel (ι : Type) where
  className : String
  label : String
  line : List (Sym ι)
  template : List (Sym ι)

/-- The panels differ in what stands before each element and in these texts. -/
def panel {ι : Type} (className first next icon alt color label : String) (line : List (Sym ι)) :
    Panel ι where
  className := className
  label := label
  line := line
  template :=
    lit first ++ lit "<div class=\"verify-icon\"><img src=\"/assets/icons/" ++ lit icon ++
      lit ".png\" class=\"icon-img\" alt=\"" ++ lit alt ++ lit "\"></div>" ++
    lit next ++ lit "<div class=\"verify-label\" style=\"color:var(--" ++ lit color ++ lit ")\">" ++
      lit label ++ lit "</div>" ++
    lit next ++ lit "<div class=\"verify-algo\">" ++ line ++ lit "</div>"

namespace Panel

variable {ι : Type}

/-- What is given to `innerHTML`, with everything in the holes escaped. -/
def html (p : Panel ι) (shown : ι → JsString) : JsString :=
  plain (fill (fun i => Dashboard.escHtml (shown i)) p.template)

/-- The line of detail as it is meant. -/
def detail (p : Panel ι) (shown : ι → JsString) : JsString :=
  plain (fill shown p.line)

variable [DecidableEq ι]

/-- The template is read with one label and one line, and no hole stands in a class. -/
def legible (p : Panel ι) : Bool :=
  match tokens p.template with
  | none => false
  | some ts => texts (units "verify-label") ts = [lit p.label] ∧
      texts (units "verify-algo") ts = [p.line] ∧
      (∀ t ∈ ts, ∀ s ∈ t.classes, (plain s).map .unit = s) ∧ 38 ∉ units p.label ∧ 38 ∉ plain p.line

end Panel

/-- The texts a reader finds in the elements of a class. -/
def said (B : Browser) (ι : Type) [DecidableEq ι] (cls : String) (html : JsString) :
    Option (List JsString) :=
  (tokens (html.map .unit) : Option (List (Token ι))).map fun ts =>
    (texts (units cls) ts).map fun s => B.refs (plain s)

/-- A reader finds the label of the panel, and this line of detail. -/
structure Panel.Reads {ι : Type} [DecidableEq ι] (B : Browser) (p : Panel ι)
    (line html : JsString) : Prop where
  label : said B ι "verify-label" html = some [units p.label]
  detail : said B ι "verify-algo" html = some [line]

/-- **The label is read as it was meant**, and so is the line, whatever is in the holes. -/
theorem reads_html {ι : Type} [DecidableEq ι] {B : Browser}
    (hrefs : Resolves B.refs Dashboard.entities) {p : Panel ι} (h : p.legible = true)
    (shown : ι → JsString) : p.Reads B (p.detail shown) (p.html shown) := by
  unfold Panel.legible at h
  split at h
  · cases h
  · rename_i ts hts
    obtain ⟨hlabel, hline, hclasses, hlit, hplain⟩ := of_decide_eq_true h
    have hread : tokens ((p.html shown).map .unit) = some (ts.flatMap (Token.fill fun i =>
        Dashboard.escHtml (shown i))) := by
      rw [Panel.html, units_plain_fill]
      exact tokens_fill (contained_escHtml shown) hts
    have htexts := fun cls => texts_fill cls (fun i => Dashboard.escHtml (shown i))
      fun t ht s hs => hclasses t ht s hs
    refine ⟨?_, ?_⟩
    · rw [said, hread, Option.map_some, htexts, hlabel, List.map_singleton, List.map_singleton,
        lit, fill_units, plain_units, hrefs.keeps hlit]
    · rw [said, hread, Option.map_some, htexts, hline, List.map_singleton, List.map_singleton,
        refs_escHtml hrefs shown hplain, Panel.detail]

/-- What is read in one text is one thing. -/
theorem Panel.Reads.unique {ι : Type} [DecidableEq ι] {B : Browser} {p p' : Panel ι}
    {line line' html : JsString} (h : p.Reads B line html) (h' : p'.Reads B line' html) :
    units p.label = units p'.label ∧ line = line' := by
  have hlabels := Option.some.inj (h.label.symm.trans h'.label)
  have hlines := Option.some.inj (h.detail.symm.trans h'.detail)
  exact ⟨(List.cons.inj hlabels).1, (List.cons.inj hlines).1⟩

end PqcApi

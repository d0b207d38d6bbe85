/-
The table of the dashboard.

`renderTable` writes a row for each document the server has listed, with everything the server
sent escaped, and one listener serves the buttons of all rows: it finds the document by the id
that the row's button carries.  The claim is that what is clicked is what is shown, whatever the
names of the documents are: the browser reads the table as one row of the template for each
document, and the listener finds the document of the row the button is in.
-/
import PqcApi.Pages.Browser
import PqcApi.Site.Documents

namespace PqcApi

open Concurrent Html

namespace Dashboard

/-- `String(trunc(v, n))`: strings and arrays have a length. -/
def trunc (B : Browser) (v : Option Json) (n : Nat) : JsString :=
  match v with
  | some (.str s) => if n < (B.text s).length then (B.text s).take n ++ units "…" else B.text s
  | some (.arr vs) =>
      if n < vs.length then B.other (.arr (vs.take n)) ++ units "…" else B.other (.arr vs)
  | v => B.string v

/-- The holes of a row. -/
inductive Hole
  | id
  | filename
  | date
  | sha256
  | short
  deriving DecidableEq

/-- The template of a row. -/
def rowTemplate : List (Sym Hole) :=
  lit "\n    <tr>\n      <td>" ++ [.hole .id] ++
  lit "</td>\n      <td>" ++ [.hole .filename] ++
  lit "</td>\n      <td>" ++ [.hole .date] ++
  lit "</td>\n      <td class=\"mono\" title=\"" ++ [.hole .sha256] ++ lit "\">" ++
    [.hole .short] ++
  lit "</td>\n      <td>" ++
  lit "\n        <button class=\"btn btn-sm btn-primary\" data-action=\"download\" data-id=\"" ++
    [.hole .id] ++ lit "\">Download</button>" ++
  lit "\n        <button class=\"btn btn-sm btn-ghost\"   data-action=\"verify\"   data-id=\"" ++
    [.hole .id] ++ lit "\">Verify</button>" ++
  lit "\n        <button class=\"btn btn-sm btn-ghost\"   data-action=\"delete\"   data-id=\"" ++
    [.hole .id] ++ lit "\">Delete</button>" ++
  lit "\n      </td>\n    </tr>\n  "

/-- What is shown in a hole of the row of a document. -/
def shown (B : Browser) (d : Json) : Hole → JsString
  | .id => B.string (d.member "id")
  | .filename => B.string (d.member "filename")
  | .date => B.date (d.member "signed_at")
  | .sha256 => B.string (d.member "sha256")
  | .short => trunc B (d.member "sha256") 16

/-- What is written into it. -/
def written (B : Browser) (d : Json) (h : Hole) : JsString :=
  escHtml (shown B d h)

/-- What is shown where there is no document. -/
def emptyTable : List (Sym Hole) :=
  lit "<tr><td colspan=\"5\">\n      <div class=\"empty-state\">\n        <div class=\"icon\">" ++
  lit "<img src=\"/assets/icons/file.png\" class=\"icon-img\" alt=\"\"></div>" ++
  lit "\n        <p>No documents yet — upload a PDF above to get started</p>" ++
  lit "\n      </div>\n    </td></tr>"

/-- `renderTable`: the text given to `innerHTML`. -/
def renderTable (B : Browser) (docs : List Json) : JsString :=
  if docs.length = 0 then plain emptyTable
  else docs.flatMap fun d => plain (fill (written B d) rowTemplate)

/-! ### What the browser reads -/

/-- White space between the elements of a template. -/
def blank : Token Hole → Bool
  | .char (.unit u) => Html.isSpace u
  | _ => false

/-- A cell without attributes. -/
def cell (h : Hole) : List (Token Hole) :=
  [.start (units "td") [] false, .char (.hole h), .close (units "td")]

/-- A button of a row. -/
def buttonTokens (cls action label : String) : List (Token Hole) :=
  [.start (units "button") [(units "class", lit cls), (units "data-action", lit action),
    (units "data-id", [.hole .id])] false] ++
  (lit label).map .char ++ [.close (units "button")]

/-- The elements of a row: four cells and three buttons in a fifth. -/
def rowElements : List (Token Hole) :=
  [.start (units "tr") [] false] ++ cell .id ++ cell .filename ++ cell .date ++
  [.start (units "td") [(units "class", lit "mono"), (units "title", [.hole .sha256])] false,
    .char (.hole .short), .close (units "td"), .start (units "td") [] false] ++
  buttonTokens "btn btn-sm btn-primary" "download" "Download" ++
  buttonTokens "btn btn-sm btn-ghost" "verify" "Verify" ++
  buttonTokens "btn btn-sm btn-ghost" "delete" "Delete" ++
  [.close (units "td"), .close (units "tr")]

/-- The template is read as these elements. -/
theorem tokens_rowTemplate :
    ∃ row, tokens rowTemplate = some row ∧ row.filter (fun t => !blank t) = rowElements := by
  have hread : (tokens rowTemplate).map (fun row => row.filter fun t => !blank t) =
      some rowElements := by decide +kernel
  obtain ⟨row, hrow, helements⟩ := Option.map_eq_some_iff.mp hread
  exact ⟨row, hrow, helements⟩

/-- What is written is read as what is shown. -/
theorem refs_written {B : Browser} (hrefs : Resolves B.refs entities) (d : Json) (h : Hole) :
    B.refs (written B d h) = shown B d h := by
  have hplain : 38 ∉ plain [Sym.hole h] := by simp [plain]
  have hhole := refs_escHtml hrefs (shown B d) hplain
  rwa [plain_fill_hole, plain_fill_hole] at hhole

/-- The table is read as one row for each document. -/
theorem tokens_renderTable (B : Browser) {row : List (Token Hole)}
    (hrow : tokens rowTemplate = some row) {docs : List Json} (hne : docs ≠ []) :
    tokens ((renderTable B docs).map .unit) =
      some (docs.flatMap fun d => row.flatMap (Token.fill (written B d))) := by
  have hlength : docs.length ≠ 0 := fun h => hne (List.length_eq_zero_iff.mp h)
  rw [renderTable, if_neg hlength, List.map_flatMap]
  refine tokens_flatMap fun d _ => ?_
  rw [units_plain_fill]
  exact tokens_fill (contained_escHtml (shown B d)) hrow

/-! ### What is clicked -/

/-- The attributes of a button that the listener reads, as they are written. -/
def dataOf : Token Hole → Option (List (Sym Hole) × List (Sym Hole))
  | .start name attrs _ =>
      if name = units "button" then
        match attr (units "data-action") attrs, attr (units "data-id") attrs with
        | some action, some id => some (action, id)
        | _, _ => none
      else none
  | _ => none

/-- A button with its `dataset`. -/
structure Button where
  action : JsString
  id : JsString
  deriving DecidableEq

/-- The buttons of what was read. -/
def buttons (B : Browser) (ts : List (Token Hole)) : List Button :=
  (ts.filterMap dataOf).map fun d => ⟨B.refs (plain d.1), B.refs (plain d.2)⟩

/-- What a button asks for: the function that is called, and the document it is called with. -/
inductive Call
  | downloadDoc (doc : Json)
  | openVerify (doc : Json)
  | deleteDoc (doc : Json)

/-- The listener of the table. -/
def onClick (B : Browser) (docs : List Json) (btn : Button) : Option Call :=
  match docs.find? fun d => B.string (d.member "id") = btn.id with
  | none => none
  | some doc =>
      if btn.action = units "download" then some (.downloadDoc doc)
      else if btn.action = units "verify" then some (.openVerify doc)
      else if btn.action = units "delete" then some (.deleteDoc doc)
      else none

/-- The buttons in the row of a document. -/
def rowButtons (B : Browser) (d : Json) : List Button :=
  [⟨units "download", shown B d .id⟩, ⟨units "verify", shown B d .id⟩,
    ⟨units "delete", shown B d .id⟩]

theorem dataOf_fill (v : Hole → JsString) (t : Token Hole) :
    (t.fill v).filterMap dataOf =
      ((dataOf t).map fun d => (fill v d.1, fill v d.2)).toList := by
  cases t with
  | char s =>
      cases s with
      | unit u => rfl
      | hole h =>
          have hnone : ∀ w : JsString,
              (w.map fun u => (Token.char (.unit u) : Token Hole)).filterMap dataOf = [] := by
            intro w
            induction w with
            | nil => rfl
            | cons u w ih => exact ih
          exact hnone (v h)
  | start name attrs self =>
      simp only [Token.fill, List.filterMap_cons, List.filterMap_nil, dataOf, attr_fill]
      by_cases hname : name = units "button"
      · simp only [if_pos hname]
        cases attr (units "data-action") attrs <;> cases attr (units "data-id") attrs <;> rfl
      · simp only [if_neg hname]
        rfl
  | close name => rfl

theorem dataOf_row {row : List (Token Hole)}
    (hrow : row.filter (fun t => !blank t) = rowElements) :
    row.filterMap dataOf = [(lit "download", [.hole .id]), (lit "verify", [.hole .id]),
      (lit "delete", [.hole .id])] := by
  have hblank : ∀ t, blank t = true → dataOf t = none := by
    intro t ht
    cases t with
    | char s => rfl
    | start name attrs self => cases ht
    | close name => cases ht
  have hfilter : ∀ ts : List (Token Hole),
      (ts.filter fun t => !blank t).filterMap dataOf = ts.filterMap dataOf := by
    intro ts
    induction ts with
    | nil => rfl
    | cons t ts ih =>
        cases ht : blank t with
        | true => simp [ht, hblank t ht, ih]
        | false => simp [ht, List.filterMap_cons, ih]
  rw [← hfilter row, hrow]
  decide +kernel

/-- Each row has its three buttons, with the id that is shown in it. -/
theorem buttons_rows {B : Browser} (hrefs : Resolves B.refs entities) {row : List (Token Hole)}
    (hrow : row.filter (fun t => !blank t) = rowElements) (docs : List Json) :
    buttons B (docs.flatMap fun d => row.flatMap (Token.fill (written B d))) =
      docs.flatMap (rowButtons B) := by
  have hfilled : ∀ (v : Hole → JsString) (ts : List (Token Hole)),
      (ts.flatMap (Token.fill v)).filterMap dataOf =
        (ts.filterMap dataOf).map fun d => (fill v d.1, fill v d.2) := by
    intro v ts
    induction ts with
    | nil => rfl
    | cons t ts ih =>
        rw [List.flatMap_cons, List.filterMap_append, ih, dataOf_fill, List.filterMap_cons]
        cases dataOf t <;> rfl
  have hnames : ∀ s ∈ ["download", "verify", "delete"], B.refs (units s) = units s := by
    intro s hs
    have hplain : ∀ s ∈ ["download", "verify", "delete"], 38 ∉ units s := by decide +kernel
    exact hrefs.keeps (hplain s hs)
  induction docs with
  | nil => rfl
  | cons d docs ih =>
      have hone : buttons B (row.flatMap (Token.fill (written B d))) = rowButtons B d := by
        rw [buttons, hfilled, dataOf_row hrow]
        simp only [List.map_cons, List.map_nil, plain_fill_lit, plain_fill_hole,
          refs_written hrefs]
        rw [hnames "download" (by simp), hnames "verify" (by simp), hnames "delete" (by simp)]
        rfl
      have happend : buttons B (row.flatMap (Token.fill (written B d)) ++
          docs.flatMap fun d => row.flatMap (Token.fill (written B d))) =
          buttons B (row.flatMap (Token.fill (written B d))) ++
            buttons B (docs.flatMap fun d => row.flatMap (Token.fill (written B d))) := by
        rw [buttons, List.filterMap_append, List.map_append]
        rfl
      rw [List.flatMap_cons, happend, hone, ih, List.flatMap_cons]

/-- Where no two documents have the same id, the listener finds the document of the row. -/
theorem onClick_rowButtons {B : Browser} {docs : List Json}
    (hids : (docs.map fun d => shown B d .id).Nodup) {d : Json} (hd : d ∈ docs) :
    (rowButtons B d).map (onClick B docs) =
      [some (.downloadDoc d), some (.openVerify d), some (.deleteDoc d)] := by
  have hfind : docs.find? (fun d' => B.string (d'.member "id") = shown B d .id) = some d := by
    cases hfound : docs.find? fun d' => B.string (d'.member "id") = shown B d .id with
    | none =>
        have hnone := List.find?_eq_none.mp hfound d hd
        exact absurd (decide_eq_true rfl) hnone
    | some d' =>
        have hsame : B.string (d'.member "id") = shown B d .id := by
          simpa using List.find?_some hfound
        have hmem := List.mem_of_find?_eq_some hfound
        exact congrArg some (List.inj_on_of_nodup_map hids hmem hd hsame)
  have hverify : units "verify" ≠ units "download" := by decide +kernel
  have hdelete : units "delete" ≠ units "download" := by decide +kernel
  have hdelete' : units "delete" ≠ units "verify" := by decide +kernel
  simp only [rowButtons, List.map_cons, List.map_nil, onClick, hfind, if_neg hverify,
    if_neg hdelete, if_neg hdelete']
  simp

end Dashboard

/-! ### The documents of a list -/

namespace Dashboard

/-- `data.documents || []`. -/
def documentsOf (body : Json) : List Json :=
  match body.member "documents" with
  | some (.arr docs) => docs
  | _ => []

/-- The list of the page: the documents, how many the page says there are, and the table. -/
structure Listing where
  docs : List Json
  count : JsString
  tbody : JsString

/-- `loadDocuments`.  An answer that is not `ok` and one that is no JSON leave the list alone. -/
def loadDocuments (B : Browser) (page : Listing) (answer : Option (Bool × Json)) : Listing :=
  match answer with
  | some (true, data) =>
      let docs := documentsOf data
      ⟨docs, numberText docs.length, renderTable B docs⟩
  | _ => page

/-- The visit a call makes in the end: `fetch` on a path with the id in it, which the server
reads as an integer.  The two that ask first may make none. -/
def Call.visit (B : Browser) (req : HttpRequest) (c : Call) : Option Visit :=
  let id := fun doc : Json =>
    stoi ((B.string (doc.member "id")).map UInt16.toUInt8)
  match c with
  | .downloadDoc doc => (id doc).map fun n => .download req n
  | .openVerify doc => (id doc).map fun n => .verify req n
  | .deleteDoc doc => (id doc).map fun n => .remove req n

theorem toUInt8_numberText (n : Int) : (numberText n).map UInt16.toUInt8 = toDecimal n := by
  rw [numberText, List.map_map]
  exact (List.map_congr_left fun b _ => UInt8.toUInt8_toUInt16 b).trans (List.map_id _)

theorem documentsOf_listing (L : Lib) (docs : List Document) :
    documentsOf (App.listing L docs) = docs.map (App.listed L) := by
  rw [App.listing, documentsOf, Json.member_object (by simp)]
  simp

/-- The page after a list. -/
theorem loadDocuments_listing (B : Browser) (page : Listing) (L : Lib) (docs : List Document) :
    loadDocuments B page (apiAnswer ⟨200, .json (App.listing L docs)⟩) =
      ⟨docs.map (App.listed L), numberText docs.length,
        renderTable B (docs.map (App.listed L))⟩ := by
  show (⟨documentsOf (App.listing L docs), numberText (documentsOf (App.listing L docs)).length,
    renderTable B (documentsOf (App.listing L docs))⟩ : Listing) = _
  rw [documentsOf_listing, List.length_map]

/-- What the page reads of a document the server has listed. -/
theorem shown_listed (B : Browser) (L : Lib) (d : Document) :
    shown B (App.listed L d) .id = numberText d.id ∧
    shown B (App.listed L d) .filename = B.text d.filename ∧
    shown B (App.listed L d) .sha256 = B.text d.sha256Hash ∧
    shown B (App.listed L d) .short = trunc B (some (.str d.sha256Hash)) 16 ∧
    shown B (App.listed L d) .date = B.date (some (.str (L.timestampText d.signedAt))) := by
  have hkeys : (["id", "filename", "sha256", "signed_at"].map ascii).Nodup := by decide
  simp only [List.map_cons, List.map_nil] at hkeys
  have hmember : ∀ key, (App.listed L d).member key = _ := fun key => Json.member_object hkeys
  simp only [shown, hmember]
  simp +decide [Browser.string]

theorem numberText_inj {n m : Int} (hn : 0 ≤ n ∧ n ≤ serialMax) (hm : 0 ≤ m ∧ m ≤ serialMax)
    (h : numberText n = numberText m) : n = m := by
  have hdigits := congrArg (List.map UInt16.toUInt8) h
  rw [toUInt8_numberText, toUInt8_numberText] at hdigits
  have hread := congrArg stoi hdigits
  rw [stoi_toDecimal hn.1 hn.2, stoi_toDecimal hm.1 hm.2] at hread
  exact Option.some.inj hread

/-- Where nothing is listed there is nothing to click. -/
theorem buttons_emptyTable (B : Browser) : ∃ ts : List (Token Hole),
    tokens ((renderTable B []).map .unit) = some ts ∧ buttons B ts = [] := by
  have hread : (tokens emptyTable).map (List.filterMap dataOf) = some [] := by decide +kernel
  obtain ⟨ts, hts, hnone⟩ := Option.map_eq_some_iff.mp hread
  have hplain : (plain emptyTable).map .unit = emptyTable := by decide +kernel
  refine ⟨ts, ?_, ?_⟩
  · rw [renderTable, if_pos List.length_nil, hplain]
    exact hts
  · rw [buttons, hnone, List.map_nil]

/-- What the page makes of a list the server has answered. -/
structure Table (B : Browser) (L : Lib) (docs : List Document) : Prop where
  /-- An empty table has no button. -/
  empty : docs = [] → ∃ ts : List (Token Hole),
    tokens ((renderTable B (docs.map (App.listed L))).map .unit) = some ts ∧ buttons B ts = []
  /-- The browser reads one row of the template for each document. -/
  rows : docs ≠ [] → ∃ row : List (Token Hole), row.filter (fun t => !blank t) = rowElements ∧
    tokens ((renderTable B (docs.map (App.listed L))).map .unit) =
      some ((docs.map (App.listed L)).flatMap fun d => row.flatMap (Token.fill (written B d))) ∧
    buttons B ((docs.map (App.listed L)).flatMap fun d =>
      row.flatMap (Token.fill (written B d))) = (docs.map (App.listed L)).flatMap (rowButtons B)
  /-- It shows in it what the server has sent: the hash as the title of its cell and, where that is
  longer, its first 16 units and an ellipsis in the cell, and the date as the browser writes it. -/
  cells : ∀ d ∈ docs, B.refs (written B (App.listed L d) .id) = numberText d.id ∧
    B.refs (written B (App.listed L d) .filename) = B.text d.filename ∧
    B.refs (written B (App.listed L d) .sha256) = B.text d.sha256Hash ∧
    B.refs (written B (App.listed L d) .short) =
      (if 16 < (B.text d.sha256Hash).length then (B.text d.sha256Hash).take 16 ++ units "…"
        else B.text d.sha256Hash) ∧
    B.refs (written B (App.listed L d) .date) =
      B.date (some (.str (L.timestampText d.signedAt)))
  /-- Its buttons make the requests for this document. -/
  acts : ∀ d ∈ docs, ∀ req, ((rowButtons B (App.listed L d)).map fun b =>
    (onClick B (docs.map (App.listed L)) b).bind (Call.visit B req)) =
      [some (.download req d.id), some (.verify req d.id), some (.remove req d.id)]

/-- So it is where ids are those of a table. -/
theorem table_of_ids {B : Browser} {L : Lib} {docs : List Document}
    (hrefs : Resolves B.refs entities) (hids : ∀ d ∈ docs, 0 ≤ d.id ∧ d.id ≤ serialMax)
    (hnodup : (docs.map Document.id).Nodup) : Table B L docs where
  empty hnil := by
    subst hnil
    exact buttons_emptyTable B
  rows hne := by
    obtain ⟨row, hrow, helements⟩ := tokens_rowTemplate
    exact ⟨row, helements, tokens_renderTable B hrow (by simpa using hne),
      buttons_rows hrefs helements _⟩
  cells d hd := by
    simp only [refs_written hrefs]
    exact shown_listed B L d
  acts d hd req := by
    have hshown : ∀ d : Document, shown B (App.listed L d) .id = numberText d.id :=
      fun d => (shown_listed B L d).1
    have hdistinct : ((docs.map (App.listed L)).map fun d => shown B d .id).Nodup := by
      rw [List.map_map]
      refine List.Nodup.map_on (fun a ha b hb hab => ?_) (List.Nodup.of_map _ hnodup)
      have hnumbers : numberText a.id = numberText b.id := by
        simpa only [Function.comp_apply, hshown] using hab
      have hid := numberText_inj (hids a ha) (hids b hb) hnumbers
      exact List.inj_on_of_nodup_map hnodup ha hb hid
    have hread : stoi ((B.string ((App.listed L d).member "id")).map UInt16.toUInt8) =
        some d.id := by
      rw [show B.string ((App.listed L d).member "id") = numberText d.id from hshown d,
        toUInt8_numberText]
      exact stoi_toDecimal (hids d hd).1 (hids d hd).2
    have hclicked := onClick_rowButtons hdistinct (List.mem_map_of_mem hd)
    have hbind := congrArg (List.map fun c : Option Call => c.bind (Call.visit B req)) hclicked
    rw [List.map_map] at hbind
    refine hbind.trans ?_
    simp [Call.visit, hread]

end Dashboard

/-- What `Api` returns of a visit.  What is thrown the framework answers with a page of its own,
which is no JSON. -/
def visitAnswer {τ : Type} (q : Visiting τ HttpResponse) : Option (Bool × Json) :=
  match q with
  | .ret r => apiAnswer r
  | _ => none

namespace Site

open Dashboard

variable {τ : Type} [Field τ] [LinearOrder τ] [FloorRing τ] {S : Site} {th : Thread (site τ S)}
  {ok : Config (site τ S) → Step (site τ S) → Prop} {w : World τ}

/-- **What is clicked is what is shown.**  Whatever is in the tables and whatever runs beside it,
a list visit that is refused or has thrown leaves the page alone; of any other the page reads one
row for each document the user had when they were listed, and the buttons in the row of a document
ask for that document. -/
theorem table_acts {c : Config (site τ S)} (hrun : Reach ok (Config.fresh w) c) {i : Nat}
    (hi : c.threads[i]? = some th) {req : HttpRequest} (hreq : th.req = .list req)
    (hdone : th.rest.Done) {B : Browser} (hrefs : Resolves B.refs Dashboard.entities)
    (page : Listing) :
    (th.rest = .ret (errorResponse "Unauthorized" 401) ∨ Broken th.rest ∨
        th.rest = .throw .json) ∧ loadDocuments B page (visitAnswer th.rest) = page ∨
    ∃ user, SessionOf th user ∧ ∃ e ∈ th.log, ∃ docs : List Document,
      Event.Is (S := (services τ).extend looks) e (.inl (.documentsByUser user)) (some docs) ∧
      docs.Perm (e.pre.own user) ∧ th.rest = .ret ⟨200, .json (App.listing S.lib docs)⟩ ∧
      loadDocuments B page (visitAnswer th.rest) = ⟨docs.map (App.listed S.lib),
        numberText docs.length, renderTable B (docs.map (App.listed S.lib))⟩ ∧
      Table B S.lib docs := by
  have hthrown : ∀ e, th.rest = .throw e → loadDocuments B page (visitAnswer th.rest) = page := by
    intro e h
    rw [h]
    rfl
  rcases listed_of_visit hrun hi hreq hdone with
    hrefused | hbroken | ⟨user, hsession, e, hmem, docs, hasked, hx, hrest⟩
  · refine Or.inl ⟨Or.inl hrefused, ?_⟩
    rw [hrefused]
    rfl
  · exact Or.inl ⟨Or.inr (Or.inl hbroken), hbroken.elim (hthrown _) (hthrown _)⟩
  by_cases hdump : (App.listing S.lib docs).dumpable = true
  · rw [if_pos hdump] at hrest
    have hperm := exec_documentsByUser hx
    have hrow : ∀ d ∈ docs, d ∈ e.pre.docs.rows := fun d hd =>
      (List.mem_filter.mp (hperm.subset hd)).1
    have hnodup : (docs.map Document.id).Nodup := by
      rw [(hperm.map Document.id).nodup_iff]
      exact (List.filter_sublist.map Document.id).nodup e.pre.docs.idsNodup
    have hids : ∀ d ∈ docs, 0 ≤ d.id ∧ d.id ≤ serialMax := by
      intro d hd
      have hid := e.pre.docs.ids d (hrow d hd)
      have hseq := e.pre.docs.seq_le
      omega
    refine Or.inr ⟨user, hsession, e, hmem, docs, hasked, hperm, hrest, ?_,
      table_of_ids hrefs hids hnodup⟩
    rw [hrest]
    exact loadDocuments_listing B page S.lib docs
  · rw [if_neg hdump] at hrest
    exact Or.inl ⟨Or.inr (Or.inr hrest), hthrown _ hrest⟩

end Site

/-- A browser that reads every byte as a character, and writes dates as they are sent. -/
def Sample.browser : Browser where
  text s := s.map UInt8.toUInt16
  other _ := units "[object Object]"
  date
    | some (.str s) => s.map UInt8.toUInt16
    | _ => units "Invalid Date"
  refs := Escape.decode Dashboard.entities

/-- **The first account looks at its documents**, on a page that has just been opened. -/
theorem table_acts_first : ∃ th : Thread (site ℚ Sample.controllers),
    th.req = .list (Sample.request none) ∧ th.rest = .ret Sample.listResponse ∧
    ∃ user, Site.SessionOf th user ∧ ∃ e ∈ th.log, ∃ docs : List Document,
      Event.Is (S := (services ℚ).extend looks) e (.inl (.documentsByUser user)) (some docs) ∧
      docs.Perm (e.pre.own user) ∧
      Dashboard.loadDocuments Sample.browser ⟨[], [], []⟩ (visitAnswer th.rest) =
        ⟨docs.map (App.listed Sample.lib), numberText docs.length,
          Dashboard.renderTable Sample.browser (docs.map (App.listed Sample.lib))⟩ ∧
      Dashboard.Table Sample.browser Sample.lib docs := by
  obtain ⟨th, hreq, hret, hrun⟩ := Sample.reach_listed
  have hrefs : Resolves Sample.browser.refs Dashboard.entities :=
    resolves_decode reversible_dashboard
  rcases Site.table_acts hrun (i := 0) rfl hreq (by rw [hret]; exact trivial) hrefs
    ⟨[], [], []⟩ with ⟨h | (h | h) | h, -⟩ | ⟨user, hsession, e, hmem, docs, hasked, hperm, -, h⟩
  · have hstatus : (200 : Nat) = 401 :=
      congrArg HttpResponse.status (Program.ret.inj (hret.symm.trans h))
    cases hstatus
  · cases hret.symm.trans h
  · cases hret.symm.trans h
  · cases hret.symm.trans h
  · exact ⟨th, hreq, hret, user, hsession, e, hmem, docs, hasked, hperm, h⟩

end PqcApi

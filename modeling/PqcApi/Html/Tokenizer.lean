/-
Reading HTML that was written with a template.

A page writes HTML by putting texts into the holes of a template.  The browser does not see the
holes: it reads the characters, one after another, by the tokenizer of the HTML standard.
Whether the texts stay where the template has put them is therefore a question about that
tokenizer.

Here it is run on the template as well, where a hole is a symbol of its own that may stand in
element text and in a value in double quotes and nowhere else.  `tokens_fill` is what this is
for: texts without `<` and without the double quote change nothing but what is in the holes, so
that reading what was written gives the tokens of the template with its holes filled.

What the standard does to single characters is left out, since no tag depends on it: line breaks
are normalised before, and U+0000 is replaced.
-/
import Mathlib.Data.List.Basic
import Mathlib.Tactic.Common
import PqcApi.Codec.Escape

namespace Html

/-- A code unit of the text, or a hole in it. -/
inductive Sym (ι : Type)
  | unit (u : UInt16)
  | hole (i : ι)
  deriving DecidableEq

/-- A token: tags with their attributes, and everything else character by character. -/
inductive Token (ι : Type)
  | char (s : Sym ι)
  | start (name : List UInt16) (attrs : List (List UInt16 × List (Sym ι))) (selfClosing : Bool)
  | close (name : List UInt16)
  deriving DecidableEq

/-- The tag that is being read. -/
structure Tag (ι : Type) where
  closing : Bool
  name : List UInt16
  attrs : List (List UInt16 × List (Sym ι))
  deriving DecidableEq

/-- The state of the tokenizer, under the names of the standard. -/
inductive Place (ι : Type)
  | data
  | tagOpen
  | endTagOpen
  | tagName (t : Tag ι)
  | beforeAttributeName (t : Tag ι)
  | attributeName (t : Tag ι) (name : List UInt16)
  | afterAttributeName (t : Tag ι) (name : List UInt16)
  | beforeAttributeValue (t : Tag ι) (name : List UInt16)
  | doubleQuoted (t : Tag ι) (name : List UInt16) (value : List (Sym ι))
  | singleQuoted (t : Tag ι) (name : List UInt16) (value : List (Sym ι))
  | unquoted (t : Tag ι) (name : List UInt16) (value : List (Sym ι))
  | afterQuoted (t : Tag ι)
  | selfClosing (t : Tag ι)
  deriving DecidableEq

/-- What has been read, the last token in front. -/
structure State (ι : Type) where
  read : List (Token ι)
  place : Place ι
  deriving DecidableEq

/-! ### Characters -/

def isSpace (u : UInt16) : Bool :=
  u = 9 || u = 10 || u = 12 || u = 32

def isAlpha (u : UInt16) : Bool :=
  (65 ≤ u && u ≤ 90) || (97 ≤ u && u ≤ 122)

def lower (u : UInt16) : UInt16 :=
  if 65 ≤ u && u ≤ 90 then u + 32 else u

/-- The code units of a constant. -/
def text (s : String) : List UInt16 :=
  s.toList.map fun c => UInt16.ofNat c.toNat

/-- Elements whose content is not read as HTML. -/
def rawText : List (List UInt16) :=
  ["script", "style", "textarea", "title", "xmp", "iframe", "noembed", "noframes", "noscript",
    "plaintext"].map text

/-! ### The tokenizer -/

variable {ι : Type}

/-- The attribute that has been read belongs to the tag. -/
def Tag.add (t : Tag ι) (name : List UInt16) (value : List (Sym ι)) : Tag ι :=
  { t with attrs := t.attrs ++ [(name, value)] }

def Tag.token (t : Tag ι) (selfClosing : Bool) : Token ι :=
  if t.closing then .close t.name else .start t.name t.attrs selfClosing

/-- The tag is complete.  Where an element's content is not HTML, nothing is said. -/
def emit (read : List (Token ι)) (t : Tag ι) (selfClosing : Bool) : Option (State ι) :=
  if t.closing = false ∧ t.name ∈ rawText then none
  else some ⟨t.token selfClosing :: read, .data⟩

def afterAttributeName (read : List (Token ι)) (t : Tag ι) (name : List UInt16) (u : UInt16) :
    Option (State ι) :=
  if isSpace u then some ⟨read, .afterAttributeName t name⟩
  else if u = 47 then some ⟨read, .selfClosing (t.add name [])⟩
  else if u = 61 then some ⟨read, .beforeAttributeValue t name⟩
  else if u = 62 then emit read (t.add name []) false
  else some ⟨read, .attributeName (t.add name []) [lower u]⟩

def attributeName (read : List (Token ι)) (t : Tag ι) (name : List UInt16) (u : UInt16) :
    Option (State ι) :=
  if isSpace u ∨ u = 47 ∨ u = 62 then afterAttributeName read t name u
  else if u = 61 then some ⟨read, .beforeAttributeValue t name⟩
  else some ⟨read, .attributeName t (name ++ [lower u])⟩

def beforeAttributeName (read : List (Token ι)) (t : Tag ι) (u : UInt16) : Option (State ι) :=
  if isSpace u then some ⟨read, .beforeAttributeName t⟩
  else if u = 47 then some ⟨read, .selfClosing t⟩
  else if u = 62 then emit read t false
  else some ⟨read, .attributeName t [lower u]⟩

def tagName (read : List (Token ι)) (t : Tag ι) (u : UInt16) : Option (State ι) :=
  if isSpace u then some ⟨read, .beforeAttributeName t⟩
  else if u = 47 then some ⟨read, .selfClosing t⟩
  else if u = 62 then emit read t false
  else some ⟨read, .tagName { t with name := t.name ++ [lower u] }⟩

def data (read : List (Token ι)) (u : UInt16) : Option (State ι) :=
  if u = 60 then some ⟨read, .tagOpen⟩ else some ⟨.char (.unit u) :: read, .data⟩

/-- Comments and declarations are not read. -/
def tagOpen (read : List (Token ι)) (u : UInt16) : Option (State ι) :=
  if u = 47 then some ⟨read, .endTagOpen⟩
  else if isAlpha u then some ⟨read, .tagName ⟨false, [lower u], []⟩⟩
  else if u = 33 ∨ u = 63 then none
  else data (.char (.unit 60) :: read) u

def endTagOpen (read : List (Token ι)) (u : UInt16) : Option (State ι) :=
  if isAlpha u then some ⟨read, .tagName ⟨true, [lower u], []⟩⟩
  else if u = 62 then some ⟨read, .data⟩
  else none

def unquoted (read : List (Token ι)) (t : Tag ι) (name : List UInt16) (value : List (Sym ι))
    (u : UInt16) : Option (State ι) :=
  if isSpace u then some ⟨read, .beforeAttributeName (t.add name value)⟩
  else if u = 62 then emit read (t.add name value) false
  else some ⟨read, .unquoted t name (value ++ [.unit u])⟩

def beforeAttributeValue (read : List (Token ι)) (t : Tag ι) (name : List UInt16) (u : UInt16) :
    Option (State ι) :=
  if isSpace u then some ⟨read, .beforeAttributeValue t name⟩
  else if u = 34 then some ⟨read, .doubleQuoted t name []⟩
  else if u = 39 then some ⟨read, .singleQuoted t name []⟩
  else if u = 62 then emit read (t.add name []) false
  else unquoted read t name [] u

def afterQuoted (read : List (Token ι)) (t : Tag ι) (u : UInt16) : Option (State ι) :=
  beforeAttributeName read t u

def selfClosing (read : List (Token ι)) (t : Tag ι) (u : UInt16) : Option (State ι) :=
  if u = 62 then emit read t true else beforeAttributeName read t u

/-- One code unit. -/
def nextUnit (s : State ι) (u : UInt16) : Option (State ι) :=
  match s.place with
  | .data => data s.read u
  | .tagOpen => tagOpen s.read u
  | .endTagOpen => endTagOpen s.read u
  | .tagName t => tagName s.read t u
  | .beforeAttributeName t => beforeAttributeName s.read t u
  | .attributeName t name => attributeName s.read t name u
  | .afterAttributeName t name => afterAttributeName s.read t name u
  | .beforeAttributeValue t name => beforeAttributeValue s.read t name u
  | .doubleQuoted t name value =>
      if u = 34 then some ⟨s.read, .afterQuoted (t.add name value)⟩
      else some ⟨s.read, .doubleQuoted t name (value ++ [.unit u])⟩
  | .singleQuoted t name value =>
      if u = 39 then some ⟨s.read, .afterQuoted (t.add name value)⟩
      else some ⟨s.read, .singleQuoted t name (value ++ [.unit u])⟩
  | .unquoted t name value => unquoted s.read t name value u
  | .afterQuoted t => afterQuoted s.read t u
  | .selfClosing t => selfClosing s.read t u

/-- One symbol: a hole stands in element text or in a value in double quotes. -/
def next (s : State ι) : Sym ι → Option (State ι)
  | .unit u => nextUnit s u
  | .hole i =>
      match s.place with
      | .data => some ⟨.char (.hole i) :: s.read, .data⟩
      | .doubleQuoted t name value => some ⟨s.read, .doubleQuoted t name (value ++ [.hole i])⟩
      | _ => none

def run (s : State ι) (symbols : List (Sym ι)) : Option (State ι) :=
  symbols.foldlM next s

/-- The tokens of a text that ends outside of all tags. -/
def tokens (symbols : List (Sym ι)) : Option (List (Token ι)) :=
  match run ⟨[], .data⟩ symbols with
  | some ⟨read, .data⟩ => some read.reverse
  | _ => none

/-! ### Filling holes -/

/-- A text into each hole. -/
def fill (v : ι → List UInt16) (symbols : List (Sym ι)) : List (Sym ι) :=
  symbols.flatMap fun
    | .unit u => [.unit u]
    | .hole i => (v i).map .unit

def Token.fill (v : ι → List UInt16) : Token ι → List (Token ι)
  | .char (.unit u) => [.char (.unit u)]
  | .char (.hole i) => (v i).map fun u => .char (.unit u)
  | .start name attrs selfClosing =>
      [.start name (attrs.map fun a => (a.1, Html.fill v a.2)) selfClosing]
  | .close name => [.close name]

def Tag.fill (v : ι → List UInt16) (t : Tag ι) : Tag ι :=
  { t with attrs := t.attrs.map fun a => (a.1, Html.fill v a.2) }

def Place.fill (v : ι → List UInt16) : Place ι → Place ι
  | .data => .data
  | .tagOpen => .tagOpen
  | .endTagOpen => .endTagOpen
  | .tagName t => .tagName (t.fill v)
  | .beforeAttributeName t => .beforeAttributeName (t.fill v)
  | .attributeName t name => .attributeName (t.fill v) name
  | .afterAttributeName t name => .afterAttributeName (t.fill v) name
  | .beforeAttributeValue t name => .beforeAttributeValue (t.fill v) name
  | .doubleQuoted t name value => .doubleQuoted (t.fill v) name (Html.fill v value)
  | .singleQuoted t name value => .singleQuoted (t.fill v) name (Html.fill v value)
  | .unquoted t name value => .unquoted (t.fill v) name (Html.fill v value)
  | .afterQuoted t => .afterQuoted (t.fill v)
  | .selfClosing t => .selfClosing (t.fill v)

/-- What was read, the last token in front, so that each filling is turned round. -/
def fillRead (v : ι → List UInt16) (read : List (Token ι)) : List (Token ι) :=
  read.flatMap fun t => (t.fill v).reverse

def State.fill (v : ι → List UInt16) (s : State ι) : State ι :=
  ⟨fillRead v s.read, s.place.fill v⟩

@[simp] theorem fill_nil (v : ι → List UInt16) : fill v [] = [] :=
  rfl

theorem fill_append (v : ι → List UInt16) (a b : List (Sym ι)) :
    fill v (a ++ b) = fill v a ++ fill v b :=
  List.flatMap_append

@[simp] theorem fill_unit (v : ι → List UInt16) (a : List (Sym ι)) (u : UInt16) :
    fill v (a ++ [.unit u]) = fill v a ++ [.unit u] :=
  fill_append v a _

/-- A text without holes stays as it is. -/
theorem fill_units (v : ι → List UInt16) (w : List UInt16) :
    fill v (w.map .unit) = w.map .unit := by
  induction w with
  | nil => rfl
  | cons u w ih => exact congrArg (.unit u :: ·) ih

theorem fill_add (v : ι → List UInt16) (t : Tag ι) (name : List UInt16) (value : List (Sym ι)) :
    (t.add name value).fill v = (t.fill v).add name (fill v value) := by
  simp [Tag.add, Tag.fill]

@[simp] theorem fillRead_char (v : ι → List UInt16) (u : UInt16) (read : List (Token ι)) :
    fillRead v (.char (.unit u) :: read) = .char (.unit u) :: fillRead v read :=
  rfl

theorem emit_fill (v : ι → List UInt16) (read : List (Token ι)) (t : Tag ι) (self : Bool) :
    emit (fillRead v read) (t.fill v) self = (emit read t self).map (State.fill v) := by
  unfold emit
  by_cases hraw : t.closing = false ∧ t.name ∈ rawText
  · rw [if_pos hraw, if_pos (show (t.fill v).closing = false ∧ (t.fill v).name ∈ rawText from hraw)]
    rfl
  · rw [if_neg hraw,
      if_neg (show ¬((t.fill v).closing = false ∧ (t.fill v).name ∈ rawText) from hraw)]
    have htoken : ((t.token self).fill v).reverse = [(t.fill v).token self] := by
      unfold Tag.token
      by_cases hclosing : t.closing = true
      · rw [if_pos hclosing, if_pos (show (t.fill v).closing = true from hclosing)]
        rfl
      · rw [if_neg hclosing, if_neg (show ¬(t.fill v).closing = true from hclosing)]
        rfl
    simp [State.fill, Place.fill, fillRead, htoken]

section Units

variable (v : ι → List UInt16) (read : List (Token ι)) (t : Tag ι) (name : List UInt16) (u : UInt16)

theorem afterAttributeName_fill : afterAttributeName (fillRead v read) (t.fill v) name u =
    (afterAttributeName read t name u).map (State.fill v) := by
  have hadd := fill_add v t name []
  have hemit := emit_fill v read (t.add name []) false
  rw [fill_nil] at hadd
  rw [hadd] at hemit
  unfold afterAttributeName
  split_ifs <;> simp [State.fill, Place.fill, hadd, hemit]

theorem attributeName_fill : attributeName (fillRead v read) (t.fill v) name u =
    (attributeName read t name u).map (State.fill v) := by
  unfold attributeName
  split_ifs
  · exact afterAttributeName_fill v read t name u
  · rfl
  · rfl

theorem beforeAttributeName_fill : beforeAttributeName (fillRead v read) (t.fill v) u =
    (beforeAttributeName read t u).map (State.fill v) := by
  have hemit := emit_fill v read t false
  unfold beforeAttributeName
  split_ifs <;> simp [State.fill, Place.fill, hemit]

theorem tagName_fill : tagName (fillRead v read) (t.fill v) u =
    (tagName read t u).map (State.fill v) := by
  unfold tagName
  split_ifs
  · rfl
  · rfl
  · exact emit_fill v read t false
  · rfl

theorem data_fill : data (fillRead v read) u = (data read u).map (State.fill v) := by
  unfold data
  split_ifs <;> rfl

theorem tagOpen_fill : tagOpen (fillRead v read) u = (tagOpen read u).map (State.fill v) := by
  unfold tagOpen
  split_ifs
  · rfl
  · rfl
  · rfl
  · exact data_fill v (.char (.unit 60) :: read) u

theorem endTagOpen_fill : endTagOpen (fillRead v read) u =
    (endTagOpen read u).map (State.fill v) := by
  unfold endTagOpen
  split_ifs <;> rfl

theorem unquoted_fill (value : List (Sym ι)) :
    unquoted (fillRead v read) (t.fill v) name (fill v value) u =
      (unquoted read t name value u).map (State.fill v) := by
  have hadd := fill_add v t name value
  have hemit := emit_fill v read (t.add name value) false
  rw [hadd] at hemit
  unfold unquoted
  split_ifs <;> simp [State.fill, Place.fill, hadd, hemit]

theorem beforeAttributeValue_fill : beforeAttributeValue (fillRead v read) (t.fill v) name u =
    (beforeAttributeValue read t name u).map (State.fill v) := by
  have hadd := fill_add v t name []
  have hemit := emit_fill v read (t.add name []) false
  rw [fill_nil] at hadd
  rw [hadd] at hemit
  unfold beforeAttributeValue
  split_ifs
  · rfl
  · rfl
  · rfl
  · exact hemit
  · exact unquoted_fill v read t name u []

theorem selfClosing_fill : selfClosing (fillRead v read) (t.fill v) u =
    (selfClosing read t u).map (State.fill v) := by
  unfold selfClosing
  split_ifs
  · exact emit_fill v read t true
  · exact beforeAttributeName_fill v read t u

end Units

theorem nextUnit_fill (v : ι → List UInt16) (s : State ι) (u : UInt16) :
    nextUnit (s.fill v) u = (nextUnit s u).map (State.fill v) := by
  obtain ⟨read, place⟩ := s
  cases place with
  | data => exact data_fill v read u
  | tagOpen => exact tagOpen_fill v read u
  | endTagOpen => exact endTagOpen_fill v read u
  | tagName t => exact tagName_fill v read t u
  | beforeAttributeName t => exact beforeAttributeName_fill v read t u
  | attributeName t name => exact attributeName_fill v read t name u
  | afterAttributeName t name => exact afterAttributeName_fill v read t name u
  | beforeAttributeValue t name => exact beforeAttributeValue_fill v read t name u
  | doubleQuoted t name value =>
      simp only [nextUnit, State.fill, Place.fill]
      split_ifs <;> simp [State.fill, Place.fill, fill_add]
  | singleQuoted t name value =>
      simp only [nextUnit, State.fill, Place.fill]
      split_ifs <;> simp [State.fill, Place.fill, fill_add]
  | unquoted t name value => exact unquoted_fill v read t name u value
  | afterQuoted t => exact beforeAttributeName_fill v read t u
  | selfClosing t => exact selfClosing_fill v read t u

theorem run_append (s : State ι) (a b : List (Sym ι)) :
    run s (a ++ b) = (run s a).bind fun s' => run s' b :=
  List.foldlM_append

/-- Text is read character by character. -/
theorem run_data (read : List (Token ι)) : ∀ {w : List UInt16}, 60 ∉ w →
    run ⟨read, .data⟩ (w.map .unit) =
      some ⟨(w.map fun u => .char (.unit u)).reverse ++ read, .data⟩ := by
  intro w
  induction w generalizing read with
  | nil => intro _; rfl
  | cons u w ih =>
      intro hw
      have hu : u ≠ 60 := fun h => hw (by simp [h])
      have hrest : 60 ∉ w := fun h => hw (List.mem_cons_of_mem u h)
      have hnext : next ⟨read, .data⟩ (.unit u) = some ⟨.char (.unit u) :: read, .data⟩ :=
        if_neg hu
      rw [List.map_cons, run, List.foldlM_cons, hnext]
      show run ⟨.char (.unit u) :: read, .data⟩ (w.map .unit) = _
      rw [ih _ hrest]
      simp

/-- So is a value in quotes. -/
theorem run_doubleQuoted (read : List (Token ι)) (t : Tag ι) (name : List UInt16) :
    ∀ {w : List UInt16} (value : List (Sym ι)), 34 ∉ w →
      run ⟨read, .doubleQuoted t name value⟩ (w.map .unit) =
        some ⟨read, .doubleQuoted t name (value ++ w.map .unit)⟩ := by
  intro w
  induction w with
  | nil => intro value _; simp [run]
  | cons u w ih =>
      intro value hw
      have hu : u ≠ 34 := fun h => hw (by simp [h])
      have hrest : 34 ∉ w := fun h => hw (List.mem_cons_of_mem u h)
      have hnext : next ⟨read, .doubleQuoted t name value⟩ (.unit u) =
          some ⟨read, .doubleQuoted t name (value ++ [.unit u])⟩ := if_neg hu
      rw [List.map_cons, run, List.foldlM_cons, hnext]
      show run ⟨read, .doubleQuoted t name (value ++ [.unit u])⟩ (w.map .unit) = _
      rw [ih _ hrest]
      simp

/-- Texts that may stand in the holes. -/
def Contained (v : ι → List UInt16) : Prop :=
  ∀ i, 60 ∉ v i ∧ 34 ∉ v i

/-- What is put into a hole is read where the hole is. -/
theorem next_fill {v : ι → List UInt16} (hv : Contained v) {s s' : State ι} {x : Sym ι}
    (h : next s x = some s') : run (s.fill v) (fill v [x]) = some (s'.fill v) := by
  cases x with
  | unit u =>
      have hunit : nextUnit s u = some s' := h
      show (nextUnit (s.fill v) u).bind some = _
      rw [nextUnit_fill, hunit]
      rfl
  | hole i =>
      obtain ⟨read, place⟩ := s
      have hfill : fill v [.hole i] = (v i).map .unit := by simp [fill]
      rw [hfill]
      cases place with
      | data =>
          obtain rfl := Option.some.inj h
          rw [State.fill, Place.fill, run_data _ (hv i).1]
          simp [State.fill, Place.fill, fillRead, Token.fill]
      | doubleQuoted t name value =>
          obtain rfl := Option.some.inj h
          rw [State.fill, Place.fill, run_doubleQuoted _ _ _ _ (hv i).2]
          rw [State.fill, Place.fill, fill_append, hfill]
      | _ => cases h

theorem run_fill {v : ι → List UInt16} (hv : Contained v) :
    ∀ {symbols : List (Sym ι)} {s s' : State ι}, run s symbols = some s' →
      run (s.fill v) (fill v symbols) = some (s'.fill v) := by
  intro symbols
  induction symbols with
  | nil =>
      intro s s' h
      obtain rfl := Option.some.inj h
      rfl
  | cons x symbols ih =>
      intro s s' h
      obtain ⟨s₁, hx, hrest⟩ := Option.bind_eq_some_iff.mp
        (show (next s x).bind (fun s₁ => run s₁ symbols) = some s' from h)
      rw [show fill v (x :: symbols) = fill v [x] ++ fill v symbols from fill_append v [x] symbols,
        run_append, next_fill hv hx]
      exact ih hrest

/-- What a text that ends outside of all tags was read as. -/
theorem tokens_eq_some {symbols : List (Sym ι)} {ts : List (Token ι)} :
    tokens symbols = some ts ↔ run ⟨[], .data⟩ symbols = some ⟨ts.reverse, .data⟩ := by
  unfold tokens
  constructor
  · intro h
    split at h
    · rename_i read hrun
      rw [hrun, ← Option.some.inj h, List.reverse_reverse]
    · cases h
  · intro h
    rw [h]
    simp

/-- **Nothing leaves its hole.**  Reading a filled template gives the tokens of the template with
its holes filled. -/
theorem tokens_fill {v : ι → List UInt16} (hv : Contained v) {symbols : List (Sym ι)}
    {ts : List (Token ι)} (h : tokens symbols = some ts) :
    tokens (fill v symbols) = some (ts.flatMap (Token.fill v)) := by
  rw [tokens_eq_some] at h ⊢
  have hfilled := run_fill hv h
  rw [List.reverse_flatMap]
  exact hfilled

/-! ### One text after another -/

/-- The same state with more read before. -/
def State.onto (base : List (Token ι)) (s : State ι) : State ι :=
  ⟨s.read ++ base, s.place⟩

theorem emit_onto (base read : List (Token ι)) (t : Tag ι) (self : Bool) :
    emit (read ++ base) t self = (emit read t self).map (State.onto base) := by
  unfold emit
  split_ifs <;> rfl

theorem beforeAttributeName_onto (base read : List (Token ι)) (t : Tag ι) (u : UInt16) :
    beforeAttributeName (read ++ base) t u =
      (beforeAttributeName read t u).map (State.onto base) := by
  unfold beforeAttributeName
  split_ifs
  · rfl
  · rfl
  · exact emit_onto base read t false
  · rfl

theorem afterAttributeName_onto (base read : List (Token ι)) (t : Tag ι) (name : List UInt16)
    (u : UInt16) : afterAttributeName (read ++ base) t name u =
      (afterAttributeName read t name u).map (State.onto base) := by
  unfold afterAttributeName
  split_ifs
  · rfl
  · rfl
  · rfl
  · exact emit_onto base read _ false
  · rfl

theorem unquoted_onto (base read : List (Token ι)) (t : Tag ι) (name : List UInt16)
    (value : List (Sym ι)) (u : UInt16) : unquoted (read ++ base) t name value u =
      (unquoted read t name value u).map (State.onto base) := by
  unfold unquoted
  split_ifs
  · rfl
  · exact emit_onto base read _ false
  · rfl

/-- What was read before does not matter. -/
theorem next_onto (base : List (Token ι)) (s : State ι) (x : Sym ι) :
    next (s.onto base) x = (next s x).map (State.onto base) := by
  obtain ⟨read, place⟩ := s
  cases x with
  | hole i => cases place <;> rfl
  | unit u =>
      cases place with
      | data =>
          simp only [next, nextUnit, State.onto, data]
          split_ifs <;> rfl
      | tagOpen =>
          simp only [next, nextUnit, State.onto, tagOpen, data]
          split_ifs <;> rfl
      | endTagOpen =>
          simp only [next, nextUnit, State.onto, endTagOpen]
          split_ifs <;> rfl
      | tagName t =>
          simp only [next, nextUnit, State.onto, tagName]
          split_ifs
          · rfl
          · rfl
          · exact emit_onto base read t false
          · rfl
      | beforeAttributeName t => exact beforeAttributeName_onto base read t u
      | attributeName t name =>
          simp only [next, nextUnit, State.onto, attributeName]
          split_ifs
          · exact afterAttributeName_onto base read t name u
          · rfl
          · rfl
      | afterAttributeName t name => exact afterAttributeName_onto base read t name u
      | beforeAttributeValue t name =>
          simp only [next, nextUnit, State.onto, beforeAttributeValue]
          split_ifs
          · rfl
          · rfl
          · rfl
          · exact emit_onto base read _ false
          · exact unquoted_onto base read t name [] u
      | doubleQuoted t name value =>
          simp only [next, nextUnit, State.onto]
          split_ifs <;> rfl
      | singleQuoted t name value =>
          simp only [next, nextUnit, State.onto]
          split_ifs <;> rfl
      | unquoted t name value => exact unquoted_onto base read t name value u
      | afterQuoted t => exact beforeAttributeName_onto base read t u
      | selfClosing t =>
          simp only [next, nextUnit, State.onto, selfClosing]
          split_ifs
          · exact emit_onto base read t true
          · exact beforeAttributeName_onto base read t u

theorem run_onto (base : List (Token ι)) : ∀ {symbols : List (Sym ι)} {s s' : State ι},
    run s symbols = some s' → run (s.onto base) symbols = some (s'.onto base) := by
  intro symbols
  induction symbols with
  | nil =>
      intro s s' h
      obtain rfl := Option.some.inj h
      rfl
  | cons x symbols ih =>
      intro s s' h
      obtain ⟨s₁, hx, hrest⟩ := Option.bind_eq_some_iff.mp
        (show (next s x).bind (fun s₁ => run s₁ symbols) = some s' from h)
      show (next (s.onto base) x).bind (fun s₁ => run s₁ symbols) = some (s'.onto base)
      rw [next_onto, hx]
      exact ih hrest

theorem tokens_append {a b : List (Sym ι)} {ts us : List (Token ι)} (ha : tokens a = some ts)
    (hb : tokens b = some us) : tokens (a ++ b) = some (ts ++ us) := by
  rw [tokens_eq_some] at ha hb ⊢
  have hrest := run_onto ts.reverse hb
  rw [run_append, ha, List.reverse_append]
  exact hrest

/-- A text that is written piece by piece, each of which ends outside of all tags. -/
theorem tokens_flatMap {α : Type} {f : α → List (Sym ι)} {g : α → List (Token ι)} :
    ∀ {xs : List α}, (∀ x ∈ xs, tokens (f x) = some (g x)) →
      tokens (xs.flatMap f) = some (xs.flatMap g) := by
  intro xs
  induction xs with
  | nil => intro _; rfl
  | cons x xs ih =>
      intro h
      exact tokens_append (h x List.mem_cons_self) (ih fun y hy => h y (List.mem_cons_of_mem x hy))

/-! ### Attributes -/

/-- The value of an attribute: of two of one name the first counts. -/
def attr (name : List UInt16) (attrs : List (List UInt16 × List (Sym ι))) :
    Option (List (Sym ι)) :=
  (attrs.find? fun a => a.1 = name).map Prod.snd

theorem attr_fill (v : ι → List UInt16) (name : List UInt16)
    (attrs : List (List UInt16 × List (Sym ι))) :
    attr name (attrs.map fun a => (a.1, fill v a.2)) =
      (attr name attrs).map (fill v) := by
  simp only [attr, List.find?_map, Function.comp_def, Option.map_map]

/-- The characters among the symbols. -/
def plain (symbols : List (Sym ι)) : List UInt16 :=
  symbols.filterMap fun
    | .unit u => some u
    | .hole _ => none

theorem plain_units (w : List UInt16) : plain (w.map .unit : List (Sym ι)) = w := by
  induction w with
  | nil => rfl
  | cons u w ih => exact congrArg (u :: ·) ih

theorem plain_append (a b : List (Sym ι)) : plain (a ++ b) = plain a ++ plain b :=
  List.filterMap_append

theorem plain_fill_append (v : ι → List UInt16) (a b : List (Sym ι)) :
    plain (fill v (a ++ b)) = plain (fill v a) ++ plain (fill v b) := by
  rw [fill_append, plain_append]

/-- In a hole stands what was put into it. -/
theorem plain_fill_hole (v : ι → List UInt16) (i : ι) : plain (fill v [.hole i]) = v i := by
  have hfill : fill v [.hole i] = (v i).map .unit := by simp [fill]
  rw [hfill, plain_units]

/-- Filled, a text has no holes. -/
theorem units_plain_fill (v : ι → List UInt16) (symbols : List (Sym ι)) :
    (plain (fill v symbols)).map .unit = fill v symbols := by
  induction symbols with
  | nil => rfl
  | cons x symbols ih =>
      have hcons : fill v (x :: symbols) = fill v [x] ++ fill v symbols := fill_append v [x] symbols
      rw [hcons, plain_append, List.map_append, ih]
      cases x with
      | unit u => rfl
      | hole i =>
          have hfill : fill v [.hole i] = (v i).map .unit := by simp [fill]
          rw [hfill, plain_units]

/-! ### The text of an element -/

/-- The characters up to the next tag. -/
def leading : List (Token ι) → List (Sym ι)
  | .char s :: ts => s :: leading ts
  | _ => []

/-- The value of the attribute `class`. -/
def Token.classes : Token ι → Option (List (Sym ι))
  | .start _ attrs _ => attr (text "class") attrs
  | _ => none

/-- What stands in the elements of a class, up to the first tag in each of them. -/
def texts [DecidableEq ι] (cls : List UInt16) : List (Token ι) → List (List (Sym ι))
  | [] => []
  | t :: ts => if t.classes = some (cls.map .unit) then leading ts :: texts cls ts else texts cls ts

theorem leading_chars (w : List UInt16) (ts : List (Token ι)) :
    leading ((w.map fun u => .char (.unit u)) ++ ts) = w.map .unit ++ leading ts := by
  induction w with
  | nil => rfl
  | cons u w ih => exact congrArg (.unit u :: ·) ih

theorem leading_fill (v : ι → List UInt16) (ts : List (Token ι)) :
    leading (ts.flatMap (Token.fill v)) = fill v (leading ts) := by
  induction ts with
  | nil => rfl
  | cons t ts ih =>
      rw [List.flatMap_cons]
      cases t with
      | char s =>
          have hcons : fill v (s :: leading ts) = fill v [s] ++ fill v (leading ts) :=
            fill_append v [s] _
          rw [leading, hcons, ← ih]
          cases s with
          | unit u => rfl
          | hole i =>
              have hfill : fill v [.hole i] = (v i).map .unit := by simp [fill]
              rw [hfill]
              exact leading_chars (v i) _
      | start name attrs self => rfl
      | close name => rfl

section Texts

variable [DecidableEq ι] (cls : List UInt16)

theorem texts_chars (w : List UInt16) (ts : List (Token ι)) :
    texts cls ((w.map fun u => .char (.unit u)) ++ ts) = texts cls ts := by
  induction w with
  | nil => rfl
  | cons u w ih =>
      rw [List.map_cons, List.cons_append, texts, if_neg (by simp [Token.classes])]
      exact ih

/-- Where no hole is in a class, filling the holes does not change whose text is whose. -/
theorem texts_fill (v : ι → List UInt16) {ts : List (Token ι)}
    (h : ∀ t ∈ ts, ∀ s, t.classes = some s → (plain s).map .unit = s) :
    texts cls (ts.flatMap (Token.fill v)) = (texts cls ts).map (fill v) := by
  induction ts with
  | nil => rfl
  | cons t ts ih =>
      have hrest := ih fun t' ht' => h t' (List.mem_cons_of_mem t ht')
      rw [List.flatMap_cons]
      cases t with
      | char s =>
          have hnone : ¬ (Token.char s).classes = some (cls.map .unit) := by simp [Token.classes]
          rw [texts, if_neg hnone, ← hrest]
          cases s with
          | unit u => exact texts_chars cls [u] _
          | hole i => exact texts_chars cls (v i) _
      | close name =>
          have hnone : ¬ (Token.close name : Token ι).classes = some (cls.map .unit) := by
            simp [Token.classes]
          rw [texts, if_neg hnone, ← hrest]
          exact if_neg hnone
      | start name attrs self =>
          have hfixed : (attr (text "class") attrs).map (fill v) = attr (text "class") attrs := by
            cases hattr : attr (text "class") attrs with
            | none => rfl
            | some s =>
                have hs := h _ List.mem_cons_self s hattr
                rw [Option.map_some, ← hs, fill_units]
          have hclasses : (Token.start name (attrs.map fun a => (a.1, fill v a.2)) self).classes =
              (Token.start name attrs self).classes := by
            rw [Token.classes, attr_fill, hfixed, Token.classes]
          show texts cls (.start name (attrs.map fun a => (a.1, fill v a.2)) self ::
            ts.flatMap (Token.fill v)) = _
          rw [texts, texts, hclasses, hrest, leading_fill]
          by_cases hcls : (Token.start name attrs self).classes = some (cls.map .unit)
          · rw [if_pos hcls, if_pos hcls, List.map_cons]
          · rw [if_neg hcls, if_neg hcls]

end Texts

/-! ### Character references -/

/-- A reader of character references that knows these, from the left. -/
structure Resolves (refs : List UInt16 → List UInt16) (rules : List (Escape.Rule UInt16)) :
    Prop where
  nil : refs [] = []
  entity : ∀ r ∈ rules, ∀ s, refs (r.text ++ s) = r.char :: refs s
  plain : ∀ u ≠ 38, ∀ s, refs (u :: s) = u :: refs s

/-- It leaves a text without references as it is. -/
theorem Resolves.keeps_append {refs : List UInt16 → List UInt16} {rules : List (Escape.Rule UInt16)}
    (h : Resolves refs rules) (t : List UInt16) :
    ∀ {s : List UInt16}, 38 ∉ s → refs (s ++ t) = s ++ refs t := by
  intro s
  induction s with
  | nil => intro _; rfl
  | cons u s ih =>
      intro hs
      have hu : u ≠ 38 := fun heq => hs (by simp [heq])
      rw [List.cons_append, h.plain u hu, ih fun hmem => hs (List.mem_cons_of_mem u hmem)]
      rfl

theorem Resolves.keeps {refs : List UInt16 → List UInt16} {rules : List (Escape.Rule UInt16)}
    (h : Resolves refs rules) {s : List UInt16} (hs : 38 ∉ s) : refs s = s := by
  have happend := h.keeps_append [] hs
  rwa [List.append_nil, h.nil, List.append_nil] at happend

/-- It reads what was escaped, if `&` was escaped itself. -/
theorem Resolves.escape_append {refs : List UInt16 → List UInt16}
    {rules : List (Escape.Rule UInt16)} (h : Resolves refs rules)
    (hown : ∃ r ∈ rules, r.char = 38) (t : List UInt16) :
    ∀ s, refs (Escape.escape rules s ++ t) = s ++ refs t := by
  intro s
  induction s with
  | nil => rfl
  | cons u s ih =>
      have hcons : Escape.escape rules (u :: s) = Escape.piece rules u ++ Escape.escape rules s :=
        List.flatMap_cons
      rw [hcons, List.append_assoc]
      rcases Escape.piece_spec rules u with ⟨r, hr, hchar, hpiece⟩ | ⟨hnone, hpiece⟩
      · rw [hpiece, h.entity r hr, ih, hchar]
        rfl
      · obtain ⟨r, hr, hamp⟩ := hown
        have hu : u ≠ 38 := fun heq => hnone r hr (hamp.trans heq.symm)
        rw [hpiece, List.singleton_append, h.plain u hu, ih]
        rfl

/-- A template in which escaped texts stand is read with the texts themselves in it. -/
theorem refs_fill {refs : List UInt16 → List UInt16} {rules : List (Escape.Rule UInt16)}
    (h : Resolves refs rules) (hown : ∃ r ∈ rules, r.char = 38) {v shown : ι → List UInt16}
    (hv : ∀ i, v i = Escape.escape rules (shown i)) :
    ∀ {symbols : List (Sym ι)}, 38 ∉ plain symbols →
      refs (plain (fill v symbols)) = plain (fill shown symbols) := by
  intro symbols
  induction symbols with
  | nil => intro _; exact h.nil
  | cons x symbols ih =>
      intro hplain
      have hcons : ∀ w : ι → List UInt16, plain (fill w (x :: symbols)) =
          plain (fill w [x]) ++ plain (fill w symbols) := fun w => plain_fill_append w [x] symbols
      rw [hcons, hcons]
      cases x with
      | unit u =>
          have hu : 38 ∉ [u] := fun hmem => hplain (by
            rw [List.mem_singleton.mp hmem]
            exact List.mem_cons_self)
          have hrest : 38 ∉ plain symbols := fun hmem => hplain (List.mem_cons_of_mem u hmem)
          have hone : ∀ w : ι → List UInt16, plain (fill w [.unit u]) = [u] := fun _ => rfl
          rw [hone, hone, h.keeps_append _ hu, ih hrest]
      | hole i =>
          have hrest : 38 ∉ plain symbols := hplain
          rw [plain_fill_hole, plain_fill_hole, hv, h.escape_append hown, ih hrest]

/-- What is left to read never outlasts the fuel. -/
theorem decodeWithin_enough {rules : List (Escape.Rule UInt16)} (h : Escape.Reversible 38 rules) :
    ∀ (n m : Nat) (s : List UInt16), s.length ≤ n → s.length ≤ m →
      Escape.decodeWithin rules n s = Escape.decodeWithin rules m s := by
  intro n
  induction n with
  | zero =>
      intro m s hn _
      obtain rfl := List.length_eq_zero_iff.mp (Nat.le_zero.mp hn)
      cases m <;> rfl
  | succ n ih =>
      intro m s hn hm
      cases s with
      | nil => cases m <;> rfl
      | cons u s =>
          obtain ⟨m, rfl⟩ : ∃ k, m = k + 1 := ⟨m - 1, by simp at hm; omega⟩
          simp only [List.length_cons, Nat.add_le_add_iff_right] at hn hm
          simp only [Escape.decodeWithin]
          cases hfind : rules.find? fun r => r.text.isPrefixOf (u :: s) with
          | none => exact congrArg (u :: ·) (ih m s hn hm)
          | some r =>
              obtain ⟨tail, htext, -⟩ := h.text_eq (List.mem_of_find?_eq_some hfind)
              have hdrop : ((u :: s).drop r.text.length).length ≤ s.length := by
                rw [htext, List.length_cons, List.drop_succ_cons, List.length_drop]
                omega
              exact congrArg (r.char :: ·) (ih m _ (by omega) (by omega))

/-- A reader that knows no other references. -/
theorem resolves_decode {rules : List (Escape.Rule UInt16)} (h : Escape.Reversible 38 rules) :
    Resolves (Escape.decode rules) rules where
  nil := rfl
  entity r hr s := by
    obtain ⟨tail, htext, -⟩ := h.text_eq hr
    have hfind := h.find_text hr s
    rw [htext, List.cons_append] at hfind
    rw [Escape.decode, htext, List.cons_append, List.length_cons, Escape.decodeWithin, hfind]
    dsimp only
    rw [htext, ← List.cons_append, List.drop_left]
    exact congrArg (r.char :: ·) (decodeWithin_enough h _ _ _ (by simp) (le_refl _))
  plain u hu s := by
    rw [Escape.decode, List.length_cons, Escape.decodeWithin, h.find_other hu]
    rfl

end Html

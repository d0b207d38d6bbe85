/-
Escaping by replacements.

A rule replaces every occurrence of one character by a text.  `replaceEach` applies rules one
after another, each to what the ones before it have left; `escape` replaces every character once.
They are the same when no rule rewrites what an earlier one has written.  If moreover every text
begins with a mark that is itself escaped, and no text is the beginning of another, what was
replaced can be found again, and `decode` undoes the escaping.
-/
import Mathlib.Data.List.Basic
import Mathlib.Data.List.Infix
import Mathlib.Tactic.Common

namespace Escape

structure Rule (α : Type) where
  char : α
  text : List α
  deriving DecidableEq

variable {α : Type} [DecidableEq α]

/-- `s.replace(/c/g, text)`. -/
def replaceAll (c : α) (text s : List α) : List α := s.flatMap fun u => if u = c then text else [u]

theorem replaceAll_eq_self {c : α} {text s : List α} (h : c ∉ s) : replaceAll c text s = s := by
  have hkept : ∀ u ∈ s, (if u = c then text else [u]) = [u] := by
    intro u hu
    refine if_neg fun heq => h ?_
    rwa [← heq]
  exact (List.flatMap_congr hkept).trans (List.flatMap_singleton' s)

def replaceEach (rules : List (Rule α)) (s : List α) : List α :=
  rules.foldl (fun s r => replaceAll r.char r.text s) s

/-- What the first rule for a character makes of it. -/
def piece (rules : List (Rule α)) (u : α) : List α :=
  match rules.find? fun r => r.char = u with
  | some r => r.text
  | none => [u]

def escape (rules : List (Rule α)) (s : List α) : List α := s.flatMap (piece rules)

/-- Read a text from the left: the character of the first rule whose text stands there, or
the character that stands there. -/
def decodeWithin (rules : List (Rule α)) : Nat → List α → List α
  | 0, _ => []
  | _ + 1, [] => []
  | n + 1, u :: s =>
      match rules.find? fun r => r.text.isPrefixOf (u :: s) with
      | some r => r.char :: decodeWithin rules n ((u :: s).drop r.text.length)
      | none => u :: decodeWithin rules n s

def decode (rules : List (Rule α)) (s : List α) : List α := decodeWithin rules s.length s

/-- What makes the replacements reversible. -/
structure Reversible (mark : α) (rules : List (Rule α)) : Prop where
  /-- No rule rewrites what an earlier one has written. -/
  ordered : rules.Pairwise fun r r' => r'.char ∉ r.text
  /-- The mark begins every text and is nowhere else in it. -/
  marked : ∀ r ∈ rules, r.text.head? = some mark ∧ mark ∉ r.text.tail
  /-- The mark is escaped. -/
  own : ∃ r ∈ rules, r.char = mark
  /-- No text begins another. -/
  free : ∀ r ∈ rules, ∀ r' ∈ rules, r.text <+: r'.text → r = r'

/-! ### One pass -/

theorem piece_of_find {rules : List (Rule α)} {u : α} {r : Rule α}
    (h : rules.find? (fun r => r.char = u) = some r) : piece rules u = r.text := by
  rw [piece, h]

theorem piece_of_forall {rules : List (Rule α)} {u : α} (h : ∀ r ∈ rules, r.char ≠ u) :
    piece rules u = [u] := by
  have hfind : rules.find? (fun r => r.char = u) = none :=
    List.find?_eq_none.mpr fun r hr => by simpa using h r hr
  rw [piece, hfind]

/-- A character is replaced by a rule's text, or has no rule and stays. -/
theorem piece_spec (rules : List (Rule α)) (u : α) :
    (∃ r ∈ rules, r.char = u ∧ piece rules u = r.text) ∨
      ((∀ r ∈ rules, r.char ≠ u) ∧ piece rules u = [u]) := by
  cases hfind : rules.find? fun r => r.char = u with
  | some r =>
      have hchar : r.char = u := by simpa using List.find?_some hfind
      exact Or.inl ⟨r, List.mem_of_find?_eq_some hfind, hchar, piece_of_find hfind⟩
  | none =>
      have hall : ∀ r ∈ rules, r.char ≠ u := fun r hr => by
        simpa using List.find?_eq_none.mp hfind r hr
      exact Or.inr ⟨hall, piece_of_forall hall⟩

/-- A text without any character of the rules stays as it is. -/
theorem escape_eq_self {rules : List (Rule α)} {s : List α}
    (h : ∀ r ∈ rules, r.char ∉ s) : escape rules s = s := by
  have hkept : ∀ u ∈ s, piece rules u = [u] := by
    intro u hu
    refine piece_of_forall fun r hr heq => h r hr ?_
    rwa [heq]
  exact (List.flatMap_congr hkept).trans (List.flatMap_singleton' s)

/-- **Replacing one after another is one pass**, in an order in which nothing is rewritten. -/
theorem replaceEach_eq_escape : ∀ {rules : List (Rule α)},
    (rules.Pairwise fun r r' => r'.char ∉ r.text) → ∀ s : List α,
    replaceEach rules s = escape rules s := by
  intro rules
  induction rules with
  | nil =>
      intro _ s
      exact (escape_eq_self (by simp)).symm
  | cons r rules ih =>
      intro hordered s
      obtain ⟨hr, hrules⟩ := List.pairwise_cons.mp hordered
      show replaceEach rules (replaceAll r.char r.text s) = _
      rw [ih hrules, escape, replaceAll, List.flatMap_assoc]
      refine List.flatMap_congr fun u _ => ?_
      by_cases hu : u = r.char
      · have hpiece : piece (r :: rules) u = r.text :=
          piece_of_find (List.find?_cons_of_pos (by simpa using hu.symm))
        rw [if_pos hu, hpiece]
        exact escape_eq_self hr
      · have hpiece : piece (r :: rules) u = piece rules u := by
          rw [piece, piece, List.find?_cons_of_neg (by simpa using Ne.symm hu)]
        rw [if_neg hu, hpiece, List.flatMap_singleton]

/-! ### What is written -/

/-- A character of the result comes from a rule's text, or was not to be replaced. -/
theorem mem_escape {rules : List (Rule α)} {s : List α} {c : α} (h : c ∈ escape rules s) :
    (∃ r ∈ rules, c ∈ r.text) ∨ (c ∈ s ∧ ∀ r ∈ rules, r.char ≠ c) := by
  obtain ⟨u, hu, hc⟩ := List.mem_flatMap.mp h
  rcases piece_spec rules u with ⟨r, hr, -, htext⟩ | ⟨hall, hkept⟩
  · rw [htext] at hc
    exact Or.inl ⟨r, hr, hc⟩
  · rw [hkept, List.mem_singleton] at hc
    subst hc
    exact Or.inr ⟨hu, hall⟩

theorem mem_escape_of_forall {rules : List (Rule α)} {s : List α} {c : α} (h : c ∈ s)
    (hc : ∀ r ∈ rules, r.char ≠ c) : c ∈ escape rules s :=
  List.mem_flatMap.mpr ⟨c, h, by rw [piece_of_forall hc]; simp⟩

namespace Reversible

variable {mark : α} {rules : List (Rule α)} (h : Reversible mark rules)

include h

omit [DecidableEq α] in
/-- A rule's text, the mark split off. -/
theorem text_eq {r : Rule α} (hr : r ∈ rules) : ∃ tail, r.text = mark :: tail ∧ mark ∉ tail := by
  obtain ⟨hhead, htail⟩ := h.marked r hr
  cases htext : r.text with
  | nil =>
      rw [htext] at hhead
      cases hhead
  | cons c tail =>
      rw [htext] at hhead htail
      obtain rfl : c = mark := Option.some.inj hhead
      exact ⟨tail, rfl, htail⟩

omit [DecidableEq α] in
/-- A character without a rule is not the mark. -/
theorem ne_mark {u : α} (hu : ∀ r ∈ rules, r.char ≠ u) : u ≠ mark := by
  obtain ⟨r, hr, hmark⟩ := h.own
  rintro rfl
  exact hu r hr hmark

/-- A character is replaced by a rule's text, or is not the mark and stays. -/
theorem piece_cases (u : α) :
    (∃ r ∈ rules, r.char = u ∧ piece rules u = r.text) ∨ (u ≠ mark ∧ piece rules u = [u]) := by
  rcases piece_spec rules u with hreplaced | ⟨hall, hkept⟩
  · exact Or.inl hreplaced
  · exact Or.inr ⟨h.ne_mark hall, hkept⟩

/-- **Every mark in the result begins a rule's text.** -/
theorem mark_begins : ∀ {s pre post : List α}, escape rules s = pre ++ mark :: post →
    ∃ r ∈ rules, r.text <+: mark :: post := by
  intro s
  induction s with
  | nil => intro pre post heq; simp [escape] at heq
  | cons u s ih =>
      intro pre post heq
      have hsplit : piece rules u ++ escape rules s = pre ++ mark :: post := heq
      rcases List.append_eq_append_iff.mp hsplit with ⟨mid, -, hrest⟩ | ⟨mid, hpiece, hrest⟩
      · exact ih hrest
      · cases mid with
        | nil =>
            have hfirst : escape rules s = [] ++ mark :: post := hrest.symm
            exact ih hfirst
        | cons m mid =>
            -- the mark stands in the piece, so the piece is a rule's text
            obtain ⟨rfl, rfl⟩ := List.cons.inj hrest
            rcases h.piece_cases u with ⟨r, hr, -, htext⟩ | ⟨hu, htext⟩
            · obtain ⟨tail, hmark, htail⟩ := h.text_eq hr
              rw [htext, hmark] at hpiece
              cases pre with
              | nil =>
                  refine ⟨r, hr, ?_⟩
                  rw [hmark, (List.cons.inj hpiece).2]
                  exact List.prefix_append (mark :: mid) (escape rules s)
              | cons c pre =>
                  refine absurd ?_ htail
                  rw [(List.cons.inj hpiece).2]
                  simp
            · rw [htext] at hpiece
              cases pre with
              | nil => exact absurd (List.cons.inj hpiece).1 hu
              | cons c pre => simpa using congrArg List.length hpiece

/-- The rule whose text stands at the beginning is found. -/
theorem find_text {r : Rule α} (hr : r ∈ rules) (rest : List α) :
    rules.find? (fun r' => r'.text.isPrefixOf (r.text ++ rest)) = some r := by
  cases hfind : rules.find? fun r' => r'.text.isPrefixOf (r.text ++ rest) with
  | none =>
      have hnot := List.find?_eq_none.mp hfind r hr
      exact absurd (List.isPrefixOf_iff_prefix.mpr (List.prefix_append _ _)) hnot
  | some r' =>
      have hr' := List.mem_of_find?_eq_some hfind
      have hfound := List.find?_some hfind
      have hprefix : r'.text <+: r.text ++ rest := List.isPrefixOf_iff_prefix.mp hfound
      rcases List.prefix_or_prefix_of_prefix hprefix (List.prefix_append _ _) with hle | hle
      · rw [h.free r' hr' r hr hle]
      · rw [h.free r hr r' hr' hle]

/-- No rule's text begins with another character. -/
theorem find_other {u : α} (hu : u ≠ mark) (rest : List α) :
    rules.find? (fun r => r.text.isPrefixOf (u :: rest)) = none := by
  refine List.find?_eq_none.mpr fun r hr hprefix => ?_
  obtain ⟨tail, hmark, -⟩ := h.text_eq hr
  rw [hmark, List.isPrefixOf_iff_prefix, List.cons_prefix_cons] at hprefix
  exact hu hprefix.1.symm

theorem decodeWithin_escape : ∀ {s : List α} {n : Nat}, (escape rules s).length ≤ n →
    decodeWithin rules n (escape rules s) = s := by
  intro s
  induction s with
  | nil =>
      intro n _
      cases n <;> rfl
  | cons u s ih =>
      intro n hn
      have hcons : escape rules (u :: s) = piece rules u ++ escape rules s := rfl
      rw [hcons, List.length_append] at hn
      rw [hcons]
      rcases h.piece_cases u with ⟨r, hr, hchar, htext⟩ | ⟨hu, htext⟩
      · obtain ⟨tail, hmark, -⟩ := h.text_eq hr
        have hfind := h.find_text hr (escape rules s)
        rw [htext] at hn ⊢
        rw [hmark, List.length_cons] at hn
        cases n with
        | zero => omega
        | succ n =>
            have htail : decodeWithin rules n (escape rules s) = s := ih (by omega)
            rw [hmark, List.cons_append] at hfind ⊢
            simp only [decodeWithin, hfind, hmark]
            rw [← List.cons_append, List.drop_left, htail, hchar]
      · rw [htext, List.length_singleton] at hn
        rw [htext, List.singleton_append]
        cases n with
        | zero => omega
        | succ n =>
            have htail : decodeWithin rules n (escape rules s) = s := ih (by omega)
            simp only [decodeWithin, h.find_other hu, htail]

/-- **Decoding undoes escaping.** -/
theorem decode_escape (s : List α) : decode rules (escape rules s) = s :=
  h.decodeWithin_escape (le_refl _)

end Reversible

/-- Up to a character that does not occur in it, a text is read whole. -/
theorem takeWhile_until {d : α} {s : List α} (h : d ∉ s) (rest : List α) :
    (s ++ d :: rest).takeWhile (fun c => decide (c ≠ d)) = s := by
  have hall : ∀ c ∈ s, (fun c => decide (c ≠ d)) c = true := by
    intro c hc
    have hne : c ≠ d := by
      rintro rfl
      exact h hc
    simpa using hne
  rw [List.takeWhile_append_of_pos hall]
  simp

end Escape

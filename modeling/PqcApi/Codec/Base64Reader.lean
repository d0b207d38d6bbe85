/-
OpenSSL's base64 reader, as `BIO_f_base64` without newlines is.

It does not read RFC 4648.  The text is taken in chunks of 1024 characters.  Of a chunk the
whole groups of four are decoded, after blanks at its beginning and blanks, line ends and
hyphens at its end; `=` counts as zero wherever it stands, and the unused bits of a last group
are not looked at.  A chunk with any other character ends the reading, and the bytes of the
chunks before it are still returned.

`turn` and `read` follow the C code.  `Chunk` is the layout of the chunks that give bytes and
`Spells` the grammar made of them: which texts are read as which bytes.  That the reader is
this grammar is `read_eq_iff`, and that it reads back what `encode` writes is `read_encode`.
-/
import Mathlib.Data.List.DropRight
import Mathlib.Data.List.TakeDrop
import PqcApi.Codec.Base64
import PqcApi.Codec.Octets

namespace Base64

theorem value_some : ∀ {c : UInt8} {n : Nat}, value c = some n → n < 64 ∧ symbol n = c := by
  have hall : ∀ c, ∀ n ∈ value c, n < 64 ∧ symbol n = c := Octets.forall_octet (by decide +kernel)
  intro c n h
  exact hall c n h

theorem value_isSome_iff {c : UInt8} : (value c).isSome ↔ IsSymbol c := by
  constructor
  · intro h
    obtain ⟨n, hn⟩ := Option.isSome_iff_exists.mp h
    exact ⟨n, (value_some hn).1, (value_some hn).2.symm⟩
  · rintro ⟨n, hn, rfl⟩
    rw [value_symbol n hn]
    rfl

namespace Reader

/-! ### The reader -/

/-- `conv_ascii2bin`: the six bits of a character; `none` where bit 7 is set. -/
def sextet (c : UInt8) : Option Nat := if c = pad then some 0 else value c

/-- `B64_WS`. -/
def isBlank (c : UInt8) : Bool := c == 32 || c == 9

/-- `B64_NOT_BASE64`: a blank, a line end or a hyphen. -/
def isEnd (c : UInt8) : Bool := isBlank c || c == 10 || c == 13 || c == 45

/-- `while (n > 3 && B64_NOT_BASE64(f[n - 1])) n--`. -/
def trimEnd (f : List UInt8) : List UInt8 := f.take 3 ++ (f.drop 3).rdropWhile isEnd

/-- Three bytes for every four characters; `none` where `EVP_DecodeBlock` returns -1. -/
def groups : List UInt8 → Option (List UInt8)
  | [] => some []
  | a :: b :: c :: d :: rest => do
      let a ← sextet a
      let b ← sextet b
      let c ← sextet c
      let d ← sextet d
      let out ← groups rest
      return UInt8.ofNat (a * 4 + b / 16) :: UInt8.ofNat (b % 16 * 16 + c / 4) ::
        UInt8.ofNat (c % 4 * 64 + d) :: out
  | _ => none

/-- `EVP_DecodeBlock`. -/
def decodeBlock (f : List UInt8) : Option (List UInt8) := groups (trimEnd (f.dropWhile isBlank))

/-- One less if the last character is `=`, and another if the one before it is, too. -/
def padding (block : List UInt8) : Nat := min 2 (block.rtakeWhile (· == pad)).length

/-- One turn of the loop in `b64_read`, on what it has of a chunk: `jj = i & ~3`. -/
def turn (tmp : List UInt8) : Option (List UInt8) :=
  let block := tmp.take (tmp.length / 4 * 4)
  (decodeBlock block).map fun out => out.take (out.length - padding block)

/-- The loop: a turn that gives no byte is the last. -/
def turns : Nat → List UInt8 → List UInt8
  | 0, _ => []
  | n + 1, s =>
      match turn (s.take 1024) with
      | some (x :: out) => x :: out ++ turns n (s.drop 1024)
      | _ => []

/-- What the reader sees of a text: its length is cast to `int`, and nothing is read where that
is negative. -/
def visible (s : List UInt8) : List UInt8 :=
  let n := s.length % 2 ^ 32
  if n < 2 ^ 31 then s.take n else []

/-- `BIO_read` of as many bytes as the text has characters. -/
def read (s : List UInt8) : List UInt8 := turns ((visible s).length / 1024 + 1) (visible s)

theorem visible_eq_self {s : List UInt8} (h : s.length < 2 ^ 31) : visible s = s := by
  have hmod : s.length % 2 ^ 32 = s.length := Nat.mod_eq_of_lt (by omega)
  rw [visible, hmod, if_pos h, List.take_length]

/-! ### Groups -/

theorem sextet_isSome_iff {c : UInt8} : (sextet c).isSome ↔ c = pad ∨ IsSymbol c := by
  unfold sextet
  by_cases h : c = pad
  · simp [h]
  · rw [if_neg h, value_isSome_iff]
    simp [h]

/-- No character of a group is trimmed. -/
theorem isEnd_of_sextet : ∀ {c : UInt8}, (sextet c).isSome → isEnd c = false := by
  have hall : ∀ c, (sextet c).isSome → isEnd c = false := Octets.forall_octet (by decide +kernel)
  intro c h
  exact hall c h

theorem isBlank_of_sextet {c : UInt8} (h : (sextet c).isSome) : isBlank c = false := by
  have hend := isEnd_of_sextet h
  simp only [isEnd, Bool.or_eq_false_iff] at hend
  exact hend.1.1.1

/-- The bytes of a group. -/
def groupBytes (i j k l : Nat) : List UInt8 :=
  [UInt8.ofNat (i * 4 + j / 16), UInt8.ofNat (j % 16 * 16 + k / 4), UInt8.ofNat (k % 4 * 64 + l)]

theorem groups_cons_some {a b c d : UInt8} {rest out : List UInt8} :
    groups (a :: b :: c :: d :: rest) = some out ↔
      ∃ i j k l tail, sextet a = some i ∧ sextet b = some j ∧ sextet c = some k ∧
        sextet d = some l ∧ groups rest = some tail ∧ out = groupBytes i j k l ++ tail := by
  simp only [groups, Option.bind_eq_bind, Option.bind_eq_some_iff, Option.pure_def,
    Option.some.injEq]
  constructor
  · rintro ⟨i, hi, j, hj, k, hk, l, hl, tail, htail, rfl⟩
    exact ⟨i, j, k, l, tail, hi, hj, hk, hl, htail, rfl⟩
  · rintro ⟨i, j, k, l, tail, hi, hj, hk, hl, htail, rfl⟩
    exact ⟨i, hi, j, hj, k, hk, l, hl, tail, htail, rfl⟩

/-- A text that neither ends nor goes on with a group is not made of groups. -/
private theorem length_of_no_group : ∀ {s : List UInt8}, s ≠ [] →
    (∀ a b c d rest, s ≠ a :: b :: c :: d :: rest) → s.length % 4 ≠ 0
  | [], hnil, _ => absurd rfl hnil
  | [_], _, _ | [_, _], _, _ | [_, _, _], _, _ => by simp
  | a :: b :: c :: d :: rest, _, hcons => absurd rfl (hcons a b c d rest)

/-- Groups are read when they are whole and every character has a value. -/
theorem groups_isSome_iff {s : List UInt8} :
    (groups s).isSome ↔ s.length % 4 = 0 ∧ ∀ c ∈ s, (sextet c).isSome := by
  induction s using groups.induct with
  | case1 => simp [groups]
  | case2 a b c d rest ih =>
      simp only [Option.isSome_iff_exists, List.forall_mem_cons, List.length_cons] at ih ⊢
      constructor
      · rintro ⟨out, hout⟩
        obtain ⟨i, j, k, l, tail, hi, hj, hk, hl, htail, -⟩ := groups_cons_some.mp hout
        obtain ⟨hlen, hall⟩ := ih.mp ⟨tail, htail⟩
        exact ⟨by omega, ⟨i, hi⟩, ⟨j, hj⟩, ⟨k, hk⟩, ⟨l, hl⟩, hall⟩
      · rintro ⟨hlen, ⟨i, hi⟩, ⟨j, hj⟩, ⟨k, hk⟩, ⟨l, hl⟩, hall⟩
        obtain ⟨tail, htail⟩ := ih.mpr ⟨by omega, hall⟩
        exact ⟨_, groups_cons_some.mpr ⟨i, j, k, l, tail, hi, hj, hk, hl, htail, rfl⟩⟩
  | case3 s hnil hcons =>
      have hlen := length_of_no_group hnil hcons
      rw [groups]
      · simp [hlen]
      · exact hnil
      · exact hcons

/-- Three bytes for every group. -/
theorem length_groups : ∀ {s out : List UInt8}, groups s = some out →
    out.length = s.length / 4 * 3 := by
  intro s
  induction s using groups.induct with
  | case1 =>
      intro out h
      obtain rfl : [] = out := Option.some.inj h
      rfl
  | case2 a b c d rest ih =>
      intro out h
      obtain ⟨i, j, k, l, tail, -, -, -, -, htail, rfl⟩ := groups_cons_some.mp h
      have := ih htail
      simp only [groupBytes, List.length_append, List.length_cons, List.length_nil]
      omega
  | case3 s hnil hcons =>
      intro out h
      have hsome := groups_isSome_iff.mp (Option.isSome_of_eq_some h)
      exact absurd hsome.1 (length_of_no_group hnil hcons)

/-! ### The layout of a chunk -/

/-- A chunk that gives bytes: blanks, whole groups, blanks and line ends, and less than a group
that is dropped. -/
structure Chunk where
  lead : List UInt8
  body : List UInt8
  trail : List UInt8
  rest : List UInt8
  blank : ∀ c ∈ lead, isBlank c = true
  nonempty : body ≠ []
  whole : body.length % 4 = 0
  alphabet : ∀ c ∈ body, c = pad ∨ IsSymbol c
  ends : ∀ c ∈ trail, isEnd c = true
  aligned : (lead ++ body ++ trail).length % 4 = 0
  short : rest.length < 4

namespace Chunk

variable (k : Chunk)

/-- The part that is decoded. -/
def block : List UInt8 := k.lead ++ k.body ++ k.trail

def text : List UInt8 := k.block ++ k.rest

/-- What its groups stand for, less one byte for each `=` that ends the block. -/
def bytes : List UInt8 :=
  let out := (groups k.body).getD []
  out.take (out.length - padding k.block)

theorem sextets {c : UInt8} (h : c ∈ k.body) : (sextet c).isSome :=
  sextet_isSome_iff.mpr (k.alphabet c h)

theorem groups_body : ∃ out, groups k.body = some out :=
  Option.isSome_iff_exists.mp (groups_isSome_iff.mpr ⟨k.whole, fun _ => k.sextets⟩)

theorem length_body : 4 ≤ k.body.length := by
  have hpos := List.length_pos_iff.mpr k.nonempty
  have := k.whole
  omega

/-- A chunk gives at least one byte. -/
theorem bytes_ne_nil : k.bytes ≠ [] := by
  obtain ⟨out, hout⟩ := k.groups_body
  have hlen := length_groups hout
  have hbody := k.length_body
  have hpadding : padding k.block ≤ 2 := Nat.min_le_left 2 _
  intro h
  have hzero := congrArg List.length h
  simp only [bytes, hout, Option.getD_some, List.length_take, List.length_nil] at hzero
  omega

end Chunk

/-- The end that is all `p` is dropped, and nothing before it. -/
private theorem rdropWhile_append {p : UInt8 → Bool} {l t : List UInt8}
    (hl : ∀ c ∈ l, p c = false) (ht : ∀ c ∈ t, p c = true) : (l ++ t).rdropWhile p = l := by
  rw [List.rdropWhile, List.reverse_append,
    List.dropWhile_append_of_pos fun c hc => ht c (List.mem_reverse.mp hc)]
  refine List.rdropWhile_eq_self_iff.mpr fun hne => ?_
  rw [hl _ (List.getLast_mem hne)]
  exact Bool.false_ne_true

/-- **A chunk of this layout is read as its bytes.** -/
theorem turn_text (k : Chunk) : turn k.text = some k.bytes := by
  have hlen : k.text.length / 4 * 4 = k.block.length := by
    have haligned : k.block.length % 4 = 0 := k.aligned
    have hshort := k.short
    rw [Chunk.text, List.length_append]
    omega
  have hblock : k.text.take (k.text.length / 4 * 4) = k.block := by
    rw [hlen, Chunk.text, List.take_left]
  have hlead : k.block.dropWhile isBlank = k.body ++ k.trail := by
    obtain ⟨c, body, hbody⟩ := List.exists_cons_of_ne_nil k.nonempty
    have hc : isBlank c = false := isBlank_of_sextet (k.sextets (by rw [hbody]; simp))
    rw [Chunk.block, List.append_assoc, List.dropWhile_append_of_pos k.blank, hbody,
      List.cons_append, List.dropWhile_cons_of_neg (by simp [hc])]
  have htrim : trimEnd (k.body ++ k.trail) = k.body := by
    have hthree : 3 ≤ k.body.length := by
      have := k.length_body
      omega
    have hbody : ∀ c ∈ k.body.drop 3, isEnd c = false := fun c hc =>
      isEnd_of_sextet (k.sextets (List.mem_of_mem_drop hc))
    rw [trimEnd, List.take_append_of_le_length hthree, List.drop_append_of_le_length hthree,
      rdropWhile_append hbody k.ends, List.take_append_drop]
  obtain ⟨out, hout⟩ := k.groups_body
  simp only [turn, hblock, decodeBlock, hlead, htrim, hout, Option.map_some, Chunk.bytes,
    Option.getD_some]

/-- **Only a chunk of this layout gives bytes.** -/
theorem exists_chunk {t m : List UInt8} (h : turn t = some m) (hm : m ≠ []) :
    ∃ k : Chunk, k.text = t ∧ k.bytes = m := by
  obtain ⟨out, hout, rfl⟩ := Option.map_eq_some_iff.mp h
  let b := t.take (t.length / 4 * 4)
  let f := b.dropWhile isBlank
  let body := trimEnd f
  let trail := (f.drop 3).rtakeWhile isEnd
  have hout : groups body = some out := hout
  have hf : body ++ trail = f := by
    show f.take 3 ++ (f.drop 3).rdropWhile isEnd ++ _ = f
    rw [List.append_assoc, List.rdropWhile_append_rtakeWhile, List.take_append_drop]
  have hb : b.takeWhile isBlank ++ body ++ trail = b := by
    rw [List.append_assoc, hf, List.takeWhile_append_dropWhile]
  have hlen : b.length = t.length / 4 * 4 := by
    rw [List.length_take]
    omega
  have hsome := groups_isSome_iff.mp (Option.isSome_of_eq_some hout)
  have hbody : body ≠ [] := by
    intro hnil
    rw [hnil] at hout
    obtain rfl : [] = out := Option.some.inj hout
    exact hm (List.take_nil)
  refine ⟨⟨b.takeWhile isBlank, body, trail, t.drop (t.length / 4 * 4), ?_, hbody, hsome.1, ?_, ?_,
    ?_, ?_⟩, ?_, ?_⟩
  · exact fun c hc => List.mem_takeWhile_imp hc
  · exact fun c hc => sextet_isSome_iff.mp (hsome.2 c hc)
  · exact fun c hc => List.mem_rtakeWhile_imp hc
  · rw [hb, hlen]
    omega
  · rw [List.length_drop]
    omega
  · exact (congrArg (· ++ t.drop (t.length / 4 * 4)) hb).trans (List.take_append_drop _ _)
  · simp only [Chunk.bytes, Chunk.block, hb, hout, Option.getD_some]
    rfl

/-! ### The grammar -/

/-- The text is read as these bytes. -/
inductive Spells : List UInt8 → List UInt8 → Prop
  | nothing {s : List UInt8} : (∀ k : Chunk, k.text ≠ s.take 1024) → Spells s []
  | chunk {s m : List UInt8} (k : Chunk) : k.text = s.take 1024 → Spells (s.drop 1024) m →
      Spells s (k.bytes ++ m)

/-- The first chunk of what the reader sees gives bytes. -/
def Legible (s : List UInt8) : Prop := ∃ k : Chunk, k.text = (visible s).take 1024

/-- A turn that gives nothing, and one that does. -/
theorem turns_succ (n : Nat) (s : List UInt8) :
    (∀ k : Chunk, k.text ≠ s.take 1024) ∧ turns (n + 1) s = [] ∨
    ∃ k : Chunk, k.text = s.take 1024 ∧ turns (n + 1) s = k.bytes ++ turns n (s.drop 1024) := by
  cases hturn : turn (s.take 1024) with
  | none =>
      refine Or.inl ⟨fun k hk => ?_, by simp only [turns, hturn]⟩
      rw [← hk, turn_text] at hturn
      cases hturn
  | some out =>
      cases out with
      | nil =>
          refine Or.inl ⟨fun k hk => ?_, by simp only [turns, hturn]⟩
          rw [← hk, turn_text] at hturn
          exact k.bytes_ne_nil (Option.some.inj hturn)
      | cons x out =>
          obtain ⟨k, hk, hbytes⟩ := exists_chunk hturn (by simp)
          exact Or.inr ⟨k, hk, by simp only [turns, hturn, hbytes]⟩

/-- A chunk has at least one character. -/
theorem Chunk.text_ne_nil (k : Chunk) : k.text ≠ [] := by
  simp [Chunk.text, Chunk.block, k.nonempty]

/-- One chunk's text is not read in two ways. -/
theorem Chunk.bytes_eq {k k' : Chunk} (h : k.text = k'.text) : k.bytes = k'.bytes := by
  have hk := turn_text k
  rw [h, turn_text k'] at hk
  exact (Option.some.inj hk).symm

theorem turns_spells : ∀ {n : Nat} {s : List UInt8}, s.length ≤ n * 1024 →
    Spells s (turns n s) := by
  intro n
  induction n with
  | zero =>
      intro s h
      obtain rfl : s = [] := List.length_eq_zero_iff.mp (by omega)
      exact .nothing fun k => k.text_ne_nil
  | succ n ih =>
      intro s h
      rcases turns_succ n s with ⟨hnone, heq⟩ | ⟨k, hk, heq⟩
      · rw [heq]
        exact .nothing hnone
      · rw [heq]
        refine .chunk k hk (ih ?_)
        rw [List.length_drop]
        omega

theorem Spells.turns_eq {s m : List UInt8} (h : Spells s m) :
    ∀ {n : Nat}, s.length ≤ n * 1024 → turns n s = m := by
  induction h with
  | @nothing s hnone =>
      intro n _
      cases n with
      | zero => rfl
      | succ n =>
          rcases turns_succ n s with ⟨-, heq⟩ | ⟨k, hk, -⟩
          · exact heq
          · exact absurd hk (hnone k)
  | @chunk s m k hk _ ih =>
      intro n hn
      cases n with
      | zero =>
          have hnil : s = [] := List.length_eq_zero_iff.mp (by omega)
          rw [hnil] at hk
          exact absurd hk k.text_ne_nil
      | succ n =>
          have hdrop : turns n (s.drop 1024) = m := ih (by rw [List.length_drop]; omega)
          rcases turns_succ n s with ⟨hnone, -⟩ | ⟨k', hk', heq⟩
          · exact absurd hk (hnone k)
          · rw [heq, hdrop, Chunk.bytes_eq (hk'.trans hk.symm)]

/-- **The reader is the grammar.** -/
theorem read_eq_iff {s m : List UInt8} : read s = m ↔ Spells (visible s) m := by
  have hlen : (visible s).length ≤ ((visible s).length / 1024 + 1) * 1024 := by omega
  constructor
  · rintro rfl
    exact turns_spells hlen
  · intro h
    exact h.turns_eq hlen

/-- **Nothing is read exactly where the first chunk gives nothing.** -/
theorem read_eq_nil_iff {s : List UInt8} : read s = [] ↔ ¬ Legible s := by
  unfold read Legible
  rcases turns_succ ((visible s).length / 1024) (visible s) with ⟨hnone, heq⟩ | ⟨k, hk, heq⟩
  · exact ⟨fun _ ⟨k, hk⟩ => hnone k hk, fun _ => heq⟩
  · refine ⟨fun h => ?_, fun h => absurd ⟨k, hk⟩ h⟩
    rw [heq] at h
    exact absurd (List.append_eq_nil_iff.mp h).1 k.bytes_ne_nil

/-! ### Reading what was written -/

/-- The bytes of a last group that is not full count as zero. -/
def missing (n : Nat) : Nat := (3 - n % 3) % 3

theorem sextet_symbol {n : Nat} (h : n < 64) : sextet (symbol n) = some n := by
  rw [sextet, if_neg (symbol_ne_pad n h), value_symbol n h]

theorem groupBytes_eq {i j k l : Nat} {a b c : UInt8} (ha : i * 4 + j / 16 = a.toNat)
    (hb : j % 16 * 16 + k / 4 = b.toNat) (hc : k % 4 * 64 + l = c.toNat) :
    groupBytes i j k l = [a, b, c] := by
  simp only [groupBytes, ha, hb, hc, UInt8.ofNat_toNat]

/-- The groups of an encoded text are its bytes, and a zero for each padding character. -/
theorem groups_encode (s : List UInt8) :
    groups (encode s) = some (s ++ List.replicate (missing s.length) 0) := by
  induction s using encode.induct with
  | case1 => rfl
  | case2 a =>
      have ha := UInt8.toNat_lt a
      have hbytes : groupBytes (a.toNat / 4) (a.toNat % 4 * 16) 0 0 = [a, 0, 0] :=
        groupBytes_eq (by omega) (by show _ = 0; omega) rfl
      refine groups_cons_some.mpr ⟨_, _, _, _, _, sextet_symbol (by omega),
        sextet_symbol (by omega), rfl, rfl, rfl, ?_⟩
      rw [hbytes]
      rfl
  | case3 a b =>
      have ha := UInt8.toNat_lt a
      have hb := UInt8.toNat_lt b
      have hbytes : groupBytes (a.toNat / 4) (a.toNat % 4 * 16 + b.toNat / 16)
          (b.toNat % 16 * 4) 0 = [a, b, 0] :=
        groupBytes_eq (by omega) (by omega) (by show _ = 0; omega)
      refine groups_cons_some.mpr ⟨_, _, _, _, _, sextet_symbol (by omega),
        sextet_symbol (by omega), sextet_symbol (by omega), rfl, rfl, ?_⟩
      rw [hbytes]
      rfl
  | case4 a b c rest ih =>
      have ha := UInt8.toNat_lt a
      have hb := UInt8.toNat_lt b
      have hc := UInt8.toNat_lt c
      have hbytes : groupBytes (a.toNat / 4) (a.toNat % 4 * 16 + b.toNat / 16)
          (b.toNat % 16 * 4 + c.toNat / 64) (c.toNat % 64) = [a, b, c] :=
        groupBytes_eq (by omega) (by omega) (by omega)
      have hmissing : missing (a :: b :: c :: rest).length = missing rest.length := by
        simp only [missing, List.length_cons]
        omega
      refine groups_cons_some.mpr ⟨_, _, _, _, _, sextet_symbol (by omega),
        sextet_symbol (by omega), sextet_symbol (by omega), sextet_symbol (by omega), ih, ?_⟩
      rw [hbytes, hmissing]
      rfl

/-- The padding at the end of a text, and nothing before it. -/
private theorem rtakeWhile_padded {body : List UInt8} (hbody : ∀ c ∈ body, IsSymbol c) (k : Nat) :
    (body ++ List.replicate k pad).rtakeWhile (· == pad) = List.replicate k pad := by
  induction k with
  | zero =>
      rw [List.replicate_zero, List.append_nil, List.rtakeWhile_eq_nil_iff]
      intro hne
      obtain ⟨n, hn, hlast⟩ := hbody _ (List.getLast_mem hne)
      simp [hlast, symbol_ne_pad n hn]
  | succ k ih =>
      rw [List.replicate_succ', ← List.append_assoc, List.rtakeWhile_concat_pos _ _ _ (by simp),
        ih]

theorem rtakeWhile_encode (s : List UInt8) :
    (encode s).rtakeWhile (· == pad) = List.replicate (missing s.length) pad := by
  obtain ⟨body, hbody, hsym⟩ := encode_padded s
  rw [hbody, rtakeWhile_padded hsym]
  rfl

/-- The padding of an encoded text is known from the length. -/
theorem eq_missing {s body : List UInt8} {k : Nat} (h : encode s = body ++ List.replicate k pad)
    (hbody : ∀ c ∈ body, IsSymbol c) : k = missing s.length := by
  have htake := rtakeWhile_encode s
  rw [h, rtakeWhile_padded hbody] at htake
  simpa using congrArg List.length htake

theorem encode_ne_nil {s : List UInt8} (h : s ≠ []) : encode s ≠ [] := by
  have hlen := length_encode_eq s
  have hpos := List.length_pos_iff.mpr h
  intro hnil
  rw [hnil, List.length_nil] at hlen
  omega

/-- The chunk of an encoded text with less than a group behind it. -/
def encodedChunk (s : List UInt8) (hne : s ≠ []) (rest : List UInt8) (hrest : rest.length < 4) :
    Chunk where
  lead := []
  body := encode s
  trail := []
  rest := rest
  blank := by simp
  nonempty := encode_ne_nil hne
  whole := length_encode s
  alphabet := fun _ => (encode_wellFormed s).alphabet
  ends := by simp
  aligned := by simpa using length_encode s
  short := hrest

theorem encodedChunk_text {s : List UInt8} (hne : s ≠ []) {rest : List UInt8}
    (hrest : rest.length < 4) : (encodedChunk s hne rest hrest).text = encode s ++ rest := by
  simp [Chunk.text, Chunk.block, encodedChunk]

theorem encodedChunk_bytes {s : List UInt8} (hne : s ≠ []) {rest : List UInt8}
    (hrest : rest.length < 4) : (encodedChunk s hne rest hrest).bytes = s := by
  have hblock : (encodedChunk s hne rest hrest).block = encode s := by
    simp [Chunk.block, encodedChunk]
  have hgroups : groups (encodedChunk s hne rest hrest).body = _ := groups_encode s
  have hmissing : missing s.length ≤ 2 := by
    unfold missing
    omega
  rw [Chunk.bytes, hblock, hgroups, padding, rtakeWhile_encode, List.length_replicate,
    Nat.min_eq_right hmissing]
  simp

/-- Less than a group is read as nothing. -/
theorem spells_short {t : List UInt8} (h : t.length < 4) : Spells t [] := by
  refine .nothing fun k hk => ?_
  have hbody := k.length_body
  have hlen := congrArg List.length hk
  simp only [Chunk.text, Chunk.block, List.length_append, List.length_take] at hlen
  omega

/-- A full chunk is read, whatever follows it. -/
theorem Spells.encode_append {s t m : List UInt8} (hs : (encode s).length = 1024)
    (h : Spells t m) : Spells (encode s ++ t) (s ++ m) := by
  have hne : s ≠ [] := by
    rintro rfl
    cases hs
  have hchunk := Spells.chunk (s := encode s ++ t) (m := m) (encodedChunk s hne [] (by simp)) (by
    rw [encodedChunk_text, List.append_nil, ← hs, List.take_left]) (by
    rw [← hs, List.drop_left]
    exact h)
  rwa [encodedChunk_bytes] at hchunk

/-- **An encoded text is read back**, with or without a last group that is not whole. -/
theorem spells_encode : ∀ {s rest : List UInt8}, rest.length < 4 → Spells (encode s ++ rest) s := by
  intro s
  induction hn : s.length using Nat.strong_induction_on generalizing s with
  | _ n ih =>
      intro rest hrest
      have hlen := length_encode_eq s
      by_cases hlong : 768 < s.length
      · -- the first 768 bytes fill a chunk
        have hfirst : (encode (s.take 768)).length = 1024 := by
          rw [length_encode_eq, List.length_take, Nat.min_eq_left (by omega)]
        have htail : Spells (encode (s.drop 768) ++ rest) (s.drop 768) := by
          refine ih (s.drop 768).length ?_ rfl hrest
          rw [List.length_drop]
          omega
        have hsplit : encode s = encode (s.take 768) ++ encode (s.drop 768) := by
          rw [← Base64.encode_append (by rw [List.length_take]; omega), List.take_append_drop]
        have hall := Spells.encode_append hfirst htail
        rwa [List.take_append_drop, ← List.append_assoc, ← hsplit] at hall
      · by_cases hnil : s = []
        · rw [hnil]
          exact spells_short hrest
        · by_cases hfull : (encode s).length = 1024
          · have hall := Spells.encode_append hfull (spells_short hrest)
            rwa [List.append_nil] at hall
          · have htext : (encode s ++ rest).length ≤ 1024 := by
              rw [List.length_append]
              omega
            have hall := Spells.chunk (s := encode s ++ rest) (m := [])
              (encodedChunk s hnil rest hrest)
              (by rw [encodedChunk_text, List.take_of_length_le htext])
              (by rw [List.drop_of_length_le htext]; exact spells_short (by simp))
            rwa [encodedChunk_bytes, List.append_nil] at hall

/-- **Reading undoes writing**, for the lengths that fit an `int` both ways. -/
theorem read_encode {s rest : List UInt8} (hs : s.length < 2 ^ 31 / 2) (hrest : rest.length < 4) :
    read (encode s ++ rest) = s := by
  have hlen : (encode s ++ rest).length < 2 ^ 31 := by
    rw [List.length_append, length_encode_eq]
    omega
  rw [read_eq_iff, visible_eq_self hlen]
  exact spells_encode hrest

end Reader

end Base64

/-
The document store keeps what was signed.

Every row is the work of one sign request, which answered 201 with the row's id, and what is
read of the row later is what that request uploaded.  A name that PostgreSQL takes and the
JSON writer refuses breaks this: the row is there and the answer is an exception.  It is the
only way, so a run in which no such name is inserted keeps the store in order.
-/
import PqcApi.Documents.Handlers

namespace PqcApi

open Concurrent

/-- The largest body Drogon passes on, as `main` sets it. -/
def bodyLimit : Nat := 50 * 1024 * 1024

/-- What the store asks of the libraries. -/
structure Lib.StoresDocuments (L : Lib) : Prop where
  base64 : ∀ s : Bytes, s.length ≤ bodyLimit → L.Base64Ok s
  digest : ∀ s, (L.sha256 s).length = 32
  signature : ∀ key r data signature, L.digestSign key r data = some signature →
    signature.length ≤ bodyLimit
  timestamp : ∀ t, utf8 (L.timestampText t) = true

theorem Lib.Base64Ok.stored {L : Lib} {s : Bytes} (h : L.Base64Ok s) :
    cstr (base64Encode L s) = base64Encode L s := by
  refine cstr_eq_self fun hz => ?_
  rw [base64Encode, h.write] at hz
  exact (Base64.encode_ascii hz).1 rfl

theorem Lib.Base64Ok.utf8 {L : Lib} {s : Bytes} (h : L.Base64Ok s) :
    utf8 (base64Encode L s) = true := by
  rw [base64Encode, h.write]
  exact utf8_of_ascii fun _ hb => (Base64.encode_ascii hb).2

theorem Lib.Base64Ok.decode {L : Lib} {s : Bytes} (h : L.Base64Ok s) :
    base64Decode L (base64Encode L s) = s := by
  rw [base64Decode, base64Encode, h.write, h.read]

/-- The column `sha256_hash` takes a hash as it is. -/
theorem Lib.StoresDocuments.sha_stored {L : Lib} (h : L.StoresDocuments) (data : Bytes) :
    (pgText (sha256Hex L data)).bind (varchar 64) = some (sha256Hex L data) := by
  rw [sha256Hex, pgText_of_ascii fun b hb => hex_ascii hb, Option.bind_some,
    varchar_of_length (by rw [length_hex, h.digest])]

variable {τ : Type} [Field τ] [LinearOrder τ] [FloorRing τ] {P : App}

/-! ### Rows that can be dumped -/

/-- Names and hashes in the table are UTF-8. -/
def World.Dumpable (w : World τ) : Prop :=
  ∀ d ∈ w.docs.rows, utf8 d.filename = true ∧ utf8 d.sha256Hash = true

omit [Field τ] [LinearOrder τ] [FloorRing τ] in
theorem World.dumpable_of_empty {w : World τ} (h : w.docs.rows = []) : w.Dumpable := by
  intro d hd
  rw [h] at hd
  cases hd

/-- PostgreSQL stores UTF-8 only. -/
theorem World.Dumpable.exec {w w' : World τ} (hw : w.Dumpable) {L : Lib} {cmd : Cmd} {ch : Choice}
    {r : Reply τ cmd} (h : PqcApi.exec L w cmd ch = some (r, w')) : w'.Dumpable := by
  intro d hd
  rcases exec_docs h with hsame | ⟨_, _, _, _, _, -, hins⟩ | ⟨id, -, hdel⟩
  · exact hw d (hsame ▸ hd)
  · obtain ⟨_, _, hname, hsha, -, hrows⟩ := withDocument_rows hins
    rw [hrows] at hd
    rcases List.mem_append.mp hd with hold | hnew
    · exact hw d hold
    · rw [List.mem_singleton.mp hnew]
      exact ⟨utf8_of_stored hname, utf8_of_stored hsha⟩
  · rw [hdel] at hd
    exact hw d (DocsTable.mem_delete.mp hd).1

/-! ### Conditions on the steps of a run -/

/-- Uploads are within the limit. -/
def WithinLimit (s : Step (server τ P)) : Prop :=
  ∀ header file, s = .start (.sign header) → App.upload header = .ok file →
    file.content.length ≤ bodyLimit

/-- A name that is stored with its row is UTF-8 as a whole, not only up to its first NUL. -/
def NamesDumpable (c : Config (server τ P)) (s : Step (server τ P)) : Prop :=
  ∀ i th user filename pdf sig sha k, s = .run i .done → c.threads[i]? = some th →
    th.rest = .call (.insertDocument user filename pdf sig sha) k →
    (c.world.withDocument user filename pdf sig sha).isSome → utf8 filename = true

/-- A run of the server whose names can be dumped. -/
def Tidy (c : Config (server τ P)) (s : Step (server τ P)) : Prop :=
  WithinLimit s ∧ NamesDumpable c s

/-! ### Whose row it is -/

/-- `th` is the request that signed and stored `d`, and answered so. -/
structure SignedBy (th : Thread (server τ P)) (d : Document) where
  header : HttpRequest
  request : th.req = .sign header
  file : FilePart
  uploaded : App.upload header = .ok file
  owner : Authenticated th d.userId
  inserted : ∃ e ∈ th.log, d ∉ e.pre.docs.rows ∧ d ∈ e.post.docs.rows
  answered : th.rest = .ret (.response ⟨201, .json (App.signedResponse d.id (App.storedName file)
    d.sha256Hash d.signature)⟩)
  pdf : base64Decode P.lib d.pdfData = file.content
  sha : d.sha256Hash = sha256Hex P.lib file.content
  valid : P.signer.verify P.lib .ok file.content (base64Decode P.lib d.signature) = .ok true

/-- An insert that answers has written a row under a new id. -/
theorem exec_insertDocument_some {w w' : World τ} {user n : Int} {filename pdf sig sha : Bytes}
    {ch : Choice} {L : Lib}
    (h : exec L w (.insertDocument user filename pdf sig sha) ch = some (some n, w')) :
    ch = .done ∧ n = w.docs.seq + 1 ∧ w'.docs.seq = n ∧
      (w.withDocument user filename pdf sig sha).isSome := by
  rcases exec_insertDocument h with ⟨hn, hw⟩ | ⟨hn, -⟩
  · obtain ⟨_, _, -, -, hseq, -⟩ := withDocument_rows hw
    have hn' : n = w'.docs.seq := Option.some.inj hn
    refine ⟨?_, by rw [hn', hseq], hn'.symm, by rw [hw]; rfl⟩
    simp only [exec, hw] at h
    exact statement_done h
  · cases hn

/-- An insert adds a row. -/
theorem withDocument_new {w w' : World τ} {user : Int} {filename pdf sig sha : Bytes}
    (h : w.withDocument user filename pdf sig sha = some w') :
    ∃ d, d ∉ w.docs.rows ∧ d ∈ w'.docs.rows := by
  obtain ⟨name, stored, -, -, -, hrows⟩ := withDocument_rows h
  refine ⟨⟨w.docs.seq + 1, user, name, cstr pdf, cstr sig, stored, w.nowUs⟩, ?_, ?_⟩
  · intro hold
    have hle := (w.docs.ids _ hold).2
    dsimp only at hle
    omega
  · rw [hrows]
    exact List.mem_append_right _ (List.mem_singleton_self _)

section Runs

variable {w : World τ} {c : Config (server τ P)} {key : PKey}

/-- **A stored row keeps what was uploaded.** -/
theorem Stored.signedBy {i : Nat} {th : Thread (server τ P)} (hL : P.lib.StoresDocuments)
    (hkey : P.signer.KeyPair P.lib key) (hrun : Reach Tidy (Config.fresh w) c)
    (hi : c.threads[i]? = some th) (l : Stored th) {d : Document}
    (hold : d ∉ l.saved.pre.docs.rows) (hnew : d ∈ l.saved.post.docs.rows) :
    Nonempty (SignedBy th d) := by
  have hp := hrun.path_at hi
  have hmem : l.saved ∈ th.log := by
    rw [l.log_eq]
    simp
  have hx := exec_of_mem hp hmem l.saved_is
  rcases exec_insertDocument hx with ⟨hreply, hw⟩ | ⟨-, hw⟩
  swap
  · rw [hw] at hnew
    exact absurd hnew hold
  rw [hreply] at hx
  obtain ⟨hdone, hn, hseq, hsome⟩ := exec_insertDocument_some hx
  -- the upload was within the limit, and so is its signature
  obtain ⟨b₀, -, hstart, -, -⟩ := hrun.started hi (Nat.zero_le _)
  have hcontent := hL.base64 l.file.content
      (hstart.1 l.header l.file (by rw [l.request]) l.uploaded)
  obtain ⟨r, hr⟩ := l.signature_eq hp
  have hsignature := hL.base64 l.signature (hL.signature _ _ _ _ hr)
  obtain rfl : key = l.key := Option.some.inj (hkey.signing.symm.trans l.key_eq)
  -- the name was asked of when the insert was issued
  have hname : utf8 (App.storedName l.file) = true := by
    obtain ⟨b, b', hm⟩ := hrun.moment [l.owner.clock, l.owner.looked, l.signed] [] hi l.log_eq
        (by simp)
    obtain ⟨k, hb, -⟩ := hm.thread_is l.saved_is
    have hallowed := hm.allowed.2
    rw [hdone] at hallowed
    exact hallowed i _ _ _ _ _ _ k rfl hb rfl (by rw [hm.pre]; exact hsome)
  -- the row
  obtain ⟨name, sha, -, hsha, -, hrows⟩ := withDocument_rows hw
  rw [hL.sha_stored, Option.some.injEq] at hsha
  subst hsha
  have hadded := hnew
  rw [hrows] at hadded
  have hd := List.mem_singleton.mp ((List.mem_append.mp hadded).resolve_left hold)
  have hpos := l.saved.pre.docs.seq_le.1
  have hid : d.id = l.saved.post.docs.seq := by
    rw [hd, hn]
  have huser : d.userId = l.user := by rw [hd]
  have hsig : d.signature = base64Encode P.lib l.signature := by
    rw [hd]
    exact hsignature.stored
  have hsha : d.sha256Hash = sha256Hex P.lib l.file.content := by rw [hd]
  have hrest := l.rest_eq
  rw [hreply, Option.getD_some, if_neg (by omega), jsonResponse_eq (by
    rw [signedResponse_dumpable, hname, sha256Hex, utf8_hex, hsignature.utf8]
    rfl)] at hrest
  refine ⟨⟨l.header, l.request, l.file, l.uploaded, huser ▸ l.owner, ⟨l.saved, hmem, hold, hnew⟩,
    ?_, ?_, hsha, ?_⟩⟩
  · rw [hrest, hid, hsha, hsig]
    rfl
  · rw [hd, hcontent.stored, hcontent.decode]
  · rw [hsig, hsignature.decode, DilithiumSigner.verify_of_publicPart hkey.verifying]
    exact congrArg _ (by
      rw [DilithiumSigner.digestVerify, hkey.init, hkey.accepts _ _ _ hr]
      rfl)

/-- Some request of the run inserted the row. -/
def Inserted (c : Config (server τ P)) (d : Document) : Prop :=
  ∃ i : Nat, ∃ th : Thread (server τ P), ∃ e : ServerEvent τ P,
    c.threads[i]? = some th ∧ e ∈ th.log ∧
    d ∉ e.pre.docs.rows ∧ d ∈ e.post.docs.rows

/-- **Every row was inserted.** -/
theorem row_inserted {ok : Config (server τ P) → Step (server τ P) → Prop} (hw : w.docs.rows = [])
    (hrun : Reach ok (Config.fresh w) c) : ∀ d ∈ c.world.docs.rows, Inserted c d := by
  refine hrun.invariant (I := fun c : Config (server τ P) =>
    ∀ d ∈ c.world.docs.rows, Inserted c d) ?_ ?_
  · intro d hd
    have hempty : d ∈ w.docs.rows := hd
    rw [hw] at hempty
    cases hempty
  · intro b c s hb _ hs d hd
    by_cases hold : d ∈ b.world.docs.rows
    · obtain ⟨i, th, e, hi, he, hpre, hpost⟩ := hb d hold
      obtain ⟨th', hth', -, ext, hl, -⟩ := Config.next_thread hs hi
      exact ⟨i, th', e, hth', by rw [hl]; simp [he], hpre, hpost⟩
    · rcases Config.next_cases hs with ⟨m, v, -, hm, rfl⟩ | ⟨r, -, rfl⟩ |
        ⟨i, ch, req, cmd, k, log, r, v, -, hi, hx, rfl⟩
      · rw [show (Config.mk v b.threads : Config (server τ P)).world.docs.rows =
          v.docs.rows from rfl,
          (move_docs hm).1] at hd
        exact absurd hd hold
      · exact absurd hd hold
      · exact ⟨i, _, _, List.getElem?_set_self (List.getElem?_eq_some_iff.mp hi).1,
          List.mem_append_right _ (List.mem_singleton_self _), hold, hd⟩

/-- No step of the server brings in anything else. -/
theorem row_utf8 {ok : Config (server τ P) → Step (server τ P) → Prop} (hw : w.Dumpable)
    (hrun : Reach ok (Config.fresh w) c) : c.world.Dumpable := by
  refine hrun.invariant (I := fun c : Config (server τ P) => c.world.Dumpable) hw ?_
  intro b c s hb _ hs
  rcases Config.next_cases hs with ⟨m, v, -, hm, rfl⟩ | ⟨r, -, rfl⟩ |
    ⟨i, ch, req, cmd, k, log, r, v, -, -, hx, rfl⟩
  · intro d hd
    exact hb d ((move_docs hm).1 ▸ hd)
  · exact hb
  · exact hb.exec (L := P.lib) hx

/-- So what a statement of the run saw could be dumped. -/
theorem dumpable_of_mem {ok : Config (server τ P) → Step (server τ P) → Prop} (hw : w.Dumpable)
    (hrun : Reach ok (Config.fresh w) c) {i : Nat} {th : Thread (server τ P)}
    (hi : c.threads[i]? = some th) : ∀ e ∈ th.log, e.pre.Dumpable := by
  intro e he
  obtain ⟨before, b, b', hm⟩ := hrun.moment_at hi he
  rw [← hm.pre]
  exact row_utf8 hw hm.reach

/-- **Every row was signed**, and the request that signed it has answered. -/
theorem signedBy_of_row (hL : P.lib.StoresDocuments) (hkey : P.signer.KeyPair P.lib key)
    (hw : w.docs.rows = []) (hrun : Reach Tidy (Config.fresh w) c) {d : Document}
    (hd : d ∈ c.world.docs.rows) :
    ∃ i : Nat, ∃ th : Thread (server τ P), c.threads[i]? = some th ∧ Nonempty (SignedBy th d) := by
  obtain ⟨i, th, e, hi, he, hpre, hpost⟩ := row_inserted hw hrun d hd
  have hp := hrun.path_at hi
  have hne : e.cmd.effect ≠ .none := by
    intro hnone
    rw [exec_none (hp.real e he) hnone] at hpost
    exact hpre hpost
  have hinsert : e.cmd.effect = .addDocument := by
    rcases exec_docs (hp.real e he) with hsame | ⟨_, _, _, _, _, hcmd, -⟩ | ⟨id, -, hdel⟩
    · rw [hsame] at hpost
      exact absurd hpost hpre
    · rw [hcmd]
      rfl
    · rw [hdel] at hpost
      exact absurd (DocsTable.mem_delete.mp hpost).1 hpre
  obtain ⟨header, hreq⟩ := Request.eq_sign ((effect_of_mem hp he hne).trans hinsert)
  rcases sign_path hp hreq with hsilent | ⟨⟨l⟩⟩
  · exact absurd (hsilent.1 e he) hne
  · obtain rfl := l.eq_saved he hne
    exact ⟨i, th, hi, l.signedBy hL hkey hrun hi hpre hpost⟩

/-- A sign request that answered 201 has stored a row under the id it told. -/
theorem stored_of_answer {th : Thread (server τ P)} (hp : Path (P.program th.req) th.log th.rest)
    {header : HttpRequest} (hreq : th.req = .sign header) {id : Int} {filename sha sig : Bytes}
    (hans : th.rest = .ret (.response ⟨201, .json (App.signedResponse id filename sha sig)⟩)) :
    ∃ l : Stored th, l.reply = some id := by
  rcases sign_path hp hreq with hsilent | ⟨⟨l⟩⟩
  · exact absurd hans (hsilent.2 _)
  obtain ⟨n, hreply, hbody⟩ := l.body_eq hans
  exact ⟨l, by rw [hreply, signedResponse_id (Body.json.inj hbody)]⟩

/-- **An id is answered once.** -/
theorem answered_once {ok : Config (server τ P) → Step (server τ P) → Prop}
    (hrun : Reach ok (Config.fresh w) c) {i j : Nat} {th th' : Thread (server τ P)}
    (hi : c.threads[i]? = some th) (hj : c.threads[j]? = some th') (l : Stored th) (l' : Stored th')
    {n : Int} (hn : l.reply = some n) (hn' : l'.reply = some n) : i = j := by
  have passed : ∀ {i : Nat} {th : Thread (server τ P)}, c.threads[i]? = some th → ∀ l : Stored th,
      l.reply = some n → l.saved ∈ th.log ∧
      l.saved.pre.docs.seq < n ∧ n ≤ l.saved.post.docs.seq := by
    intro i th hi l hn
    have hmem : l.saved ∈ th.log := by
      rw [l.log_eq]
      simp
    have hx := exec_of_mem (hrun.path_at hi) hmem l.saved_is
    rw [hn] at hx
    obtain ⟨-, hnext, hseq, -⟩ := exec_insertDocument_some hx
    exact ⟨hmem, by omega, by omega⟩
  obtain ⟨he, hlt⟩ := passed hi l hn
  obtain ⟨he', hlt'⟩ := passed hj l' hn'
  exact hrun.once (f := fun v : World τ => v.docs.seq)
    (fun _ hs => (docsLe_next hs).1) hi hj he he' hlt hlt'

/-! ### Rows stay -/

/-- A remove of this id has answered 200. -/
def Removed (c : Config (server τ P)) (id : Int) : Prop :=
  ∃ i : Nat, ∃ header, ∃ th : Thread (server τ P), c.threads[i]? = some th ∧
    th.req = .remove header id ∧
    th.rest = .ret (.response ⟨200, .json (App.removedResponse id)⟩)

theorem Removed.later {ok : Config (server τ P) → Step (server τ P) → Prop}
    {b : Config (server τ P)}
    {id : Int} (h : Removed b id) (hbc : Reach ok b c) : Removed c id := by
  obtain ⟨i, header, th, hi, hreq, hrest⟩ := h
  exact ⟨i, header, th, hbc.thread_done hi (by rw [hrest]; exact trivial), hreq, hrest⟩

/-- **A row stays until a remove of its id succeeds.** -/
theorem row_stays {ok : Config (server τ P) → Step (server τ P) → Prop} {b : Config (server τ P)}
    (hb : b.Sound) (hbc : Reach ok b c) {d : Document} (hd : d ∈ b.world.docs.rows)
    (hnone : ¬ Removed c d.id) : d ∈ c.world.docs.rows := by
  induction hbc with
  | refl => exact hd
  | @tail a c s hba hok hs ih =>
      have hsound : a.Sound := hba.path hb
      have hold := ih fun hremoved => hnone (hremoved.later ((Reach.refl a).tail hok hs))
      have hsound' := hsound.next hs
      rcases Config.next_cases hs with ⟨m, v, -, hm, rfl⟩ | ⟨r, -, rfl⟩ |
        ⟨i, ch, req, cmd, k, log, r, v, -, hi, hx, rfl⟩
      · show d ∈ v.docs.rows
        rw [(move_docs hm).1]
        exact hold
      · exact hold
      · have hi' := List.getElem?_set_self (a := (⟨req, k r, log ++ [⟨cmd, ch, a.world, r, v⟩]⟩ :
          Thread (server τ P))) (List.getElem?_eq_some_iff.mp hi).1
        rcases exec_docs (L := P.lib) hx with hsame | ⟨_, _, _, _, _, -, hins⟩ | ⟨id, rfl, hdel⟩
        · show d ∈ v.docs.rows
          rw [hsame]
          exact hold
        · obtain ⟨_, _, -, -, -, hrows⟩ := withDocument_rows hins
          show d ∈ v.docs.rows
          rw [hrows]
          exact List.mem_append_left _ hold
        · by_cases hid : d.id = id
          · -- the delete found the row, so its request answers 200
            obtain ⟨header, hreq, hans⟩ := remove_of_mem (hsound' _ (List.mem_of_getElem? hi'))
              (List.mem_append_right _ (List.mem_singleton_self _)) ⟨_, _, _, rfl⟩
            rcases exec_deleteDocument (L := P.lib) hx with ⟨hr, -⟩ | ⟨-, hv⟩
            · have hfound : r = some true := by
                rw [hr, ← hid, DocsTable.byId_of_mem hold]
                rfl
              exact absurd ⟨i, header, _, hi', hid ▸ hreq, hid ▸ hans hfound⟩ hnone
            · show d ∈ v.docs.rows
              rw [hv]
              exact hold
          · show d ∈ v.docs.rows
            rw [hdel]
            exact DocsTable.mem_delete.mpr ⟨hold, hid⟩

/-- A request started later sees the row at each of its statements. -/
theorem row_seen {ok : Config (server τ P) → Step (server τ P) → Prop} {b : Config (server τ P)}
    (hb : b.Sound) (hbc : Reach ok b c) {d : Document} (hd : d ∈ b.world.docs.rows)
    (hnone : ¬ Removed c d.id) {j : Nat} (hlate : b.threads.length ≤ j) {th : Thread (server τ P)}
    (hj : c.threads[j]? = some th) : ∀ e ∈ th.log, d ∈ e.pre.docs.rows := by
  intro e he
  obtain ⟨before, a, a', hm⟩ := hbc.moment_late hlate hj he
  have hac : Reach ok a c := ((Reach.refl a).tail hm.allowed hm.next).trans hm.later
  rw [← hm.pre]
  exact row_stays hb hm.reach hd fun hremoved => hnone (hremoved.later hac)

/-- The row is there after the request that signed it. -/
theorem SignedBy.present {b : Config (server τ P)}
    {ok : Config (server τ P) → Step (server τ P) → Prop}
    (hb : Reach ok (Config.fresh w) b) {i : Nat} {th : Thread (server τ P)}
    (hi : b.threads[i]? = some th) {d : Document} (l : SignedBy th d) (hnone : ¬ Removed b d.id) :
    d ∈ b.world.docs.rows := by
  obtain ⟨e, he, -, hpost⟩ := l.inserted
  obtain ⟨before, a, a', hm⟩ := hb.moment_at hi he
  have hsound : a'.Sound := Config.Sound.next (hm.reach.path (Config.fresh_sound w)) hm.next
  exact row_stays hsound hm.later (by rw [hm.post]; exact hpost) hnone

/-! ### What is read of them -/

/-- **Reads give back what was signed**: of a request that is answered, started while the row
was there and ended before it was removed. -/
theorem reads_signed {ok : Config (server τ P) → Step (server τ P) → Prop}
    (hL : P.lib.StoresDocuments) (hw : w.docs.rows = []) (hrun : Reach ok (Config.fresh w) c)
    {d : Document} {content : Bytes} (hpdf : base64Decode P.lib d.pdfData = content)
    (hvalid : P.signer.verify P.lib .ok content (base64Decode P.lib d.signature) = .ok true)
    {j : Nat} {th : Thread (server τ P)} (hj : c.threads[j]? = some th)
    (l : Authenticated th d.userId) (hdone : th.rest.Done)
    (hserved : ∀ e ∈ th.log, e.choice ≠ .threw) (hrow : ∀ e ∈ th.log, d ∈ e.pre.docs.rows)
    {header : HttpRequest} :
    (th.req = .download header d.id → th.rest = .ret (.response
      ⟨200, .file (contentDisposition d.filename) content⟩)) ∧
    (th.req = .verify header d.id → th.rest = .ret (.response
      ⟨200, .json (App.verifiedResponse d.id d true)⟩)) ∧
    (th.req = .list header → ∃ docs : List Document,
      th.rest = .ret (.response ⟨200, .json (.object [("documents",
        .arr (docs.map (App.listed P.lib)))])⟩) ∧ (docs.filter fun e => e.id = d.id) = [d]) := by
  have hserved' : ∀ e ∈ l.rest, e.choice ≠ .threw := fun e he => hserved e (l.mem_log he)
  have hrow' : ∀ e ∈ l.rest, d ∈ e.pre.docs.rows := fun e he => hrow e (l.mem_log he)
  have hutf8 := dumpable_of_mem (World.dumpable_of_empty hw) hrun hj
  have hclock : l.clock ∈ th.log := by
    rw [l.log]
    simp
  obtain ⟨hname, hsha⟩ := hutf8 l.clock hclock d (hrow _ hclock)
  have hpath := l.path
  refine ⟨?_, ?_, ?_⟩
  · intro hreq
    rw [l.body_eq (congrArg P.guarded hreq)] at hpath
    simp only [App.downloadAs_eq, l.user_eq] at hpath
    obtain ⟨rest, hp⟩ := readOwned_shows hpath hdone hserved' hrow' rfl rfl
    rw [hpdf] at hp
    exact (path_ret.mp hp).2
  · intro hreq
    rw [l.body_eq (congrArg P.guarded hreq)] at hpath
    simp only [App.verifyAs_eq, l.user_eq] at hpath
    obtain ⟨rest, hp⟩ := readOwned_shows hpath hdone hserved' hrow' rfl rfl
    rw [App.judge, hpdf, hvalid] at hp
    dsimp only at hp
    rw [jsonResponse_eq (verifiedResponse_dumpable hname hsha)] at hp
    exact (path_ret.mp hp).2
  · intro hreq
    rw [l.body_eq (congrArg P.guarded hreq)] at hpath
    obtain ⟨e, he, docs, hperm, hq⟩ := listAs_path l.user_eq hpath hdone hserved' (by
      intro e he d hd
      obtain ⟨hname, hsha⟩ := hutf8 e (l.mem_log he) d hd
      exact listed_dumpable hname hsha (hL.timestamp _))
    refine ⟨docs, hq, List.perm_singleton.mp ?_⟩
    have hmine : ((e.pre.own d.userId).filter fun e => e.id = d.id) = [d] := by
      rw [World.own, List.filter_comm, DocsTable.filter_id (hrow' e he)]
      simp
    rw [← hmine]
    exact hperm.filter _

/-! ### The store -/

/-- **The store keeps what was signed**, in every run without names that are stored but cannot
be dumped.  Every row was inserted by one sign request, of the row's user, that answered 201
with the row's id, and by no other; its columns decode to the upload, its hash and a valid
signature.  Until a remove of the id answers 200, the owner's download gives the upload
back, its verify says so, and its list has the id once.  A sign request that ends with
anything but 201 has left the table alone. -/
theorem documents_kept {key : PKey} (hL : P.lib.StoresDocuments)
    (hkey : P.signer.KeyPair P.lib key) {w : World τ} (hw : w.docs.rows = [])
    {c : Config (server τ P)} (hrun : Reach Tidy (Config.fresh w) c) :
    (∀ d ∈ c.world.docs.rows, ∃ i : Nat, ∃ th : Thread (server τ P),
      c.threads[i]? = some th ∧ Nonempty (SignedBy th d) ∧
      ∀ (j : Nat) (th' : Thread (server τ P)) (header : HttpRequest) (name sha sig : Bytes),
        c.threads[j]? = some th' → th'.req = .sign header →
        th'.rest = .ret (.response ⟨201, .json (App.signedResponse d.id name sha sig)⟩) → j = i) ∧
    (∀ (b : Config (server τ P)) (i j : Nat) (th th' : Thread (server τ P)) (d : Document)
      (l : SignedBy th d), Reach Tidy (Config.fresh w) b → Reach Tidy b c →
      b.threads[i]? = some th → ¬ Removed c d.id → b.threads.length ≤ j →
      c.threads[j]? = some th' → Nonempty (Authenticated th' d.userId) → th'.rest.Done →
      (∀ e ∈ th'.log, e.choice ≠ .threw) → ∀ header : HttpRequest,
      (th'.req = .download header d.id → th'.rest = .ret (.response
        ⟨200, .file (contentDisposition d.filename) l.file.content⟩)) ∧
      (th'.req = .verify header d.id → th'.rest = .ret (.response
        ⟨200, .json (App.verifiedResponse d.id d true)⟩)) ∧
      (th'.req = .list header → ∃ docs : List Document,
        th'.rest = .ret (.response ⟨200, .json (.object [("documents",
          .arr (docs.map (App.listed P.lib)))])⟩) ∧ (docs.filter fun e => e.id = d.id) = [d])) ∧
    ∀ (i : Nat) (th : Thread (server τ P)) (header : HttpRequest), c.threads[i]? = some th →
      th.req = .sign header → th.rest.Done →
      (∀ body, th.rest ≠ .ret (.response ⟨201, body⟩)) →
      ∀ e ∈ th.log, e.post.docs = e.pre.docs := by
  have hpath := hrun.path (Config.fresh_sound w)
  refine ⟨?_, ?_, ?_⟩
  · intro d hd
    obtain ⟨i, th, hi, ⟨l⟩⟩ := signedBy_of_row hL hkey hw hrun hd
    refine ⟨i, th, hi, ⟨l⟩, ?_⟩
    intro j th' header name sha sig hj hreq hans
    obtain ⟨s, hs⟩ := stored_of_answer (hpath th (List.mem_of_getElem? hi)) l.request l.answered
    obtain ⟨s', hs'⟩ := stored_of_answer (hpath th' (List.mem_of_getElem? hj)) hreq hans
    exact answered_once hrun hj hi s' s hs' hs
  · intro b i j th th' d l hb hbc hi hnone hlate hj ⟨l'⟩ hdone hserved header
    have hd := l.present hb hi fun hremoved => hnone (hremoved.later hbc)
    have hseen := row_seen (hb.path (Config.fresh_sound w)) hbc hd hnone hlate hj
    exact reads_signed hL hw hrun l.pdf l.valid hj l' hdone hserved hseen
  · intro i th header hi hreq hdone hend e he
    have hp := hpath th (List.mem_of_getElem? hi)
    rcases sign_path hp hreq with hsilent | ⟨⟨l⟩⟩
    · rw [exec_none (hp.real e he) (hsilent.1 e he)]
    · by_cases hne : e.cmd.effect = .none
      · rw [exec_none (hp.real e he) hne]
      · obtain rfl := l.eq_saved he hne
        rcases exec_insertDocument (exec_of_mem hp he l.saved_is) with ⟨-, hins⟩ | ⟨-, hsame⟩
        · obtain ⟨d, hold, hnew⟩ := withDocument_new hins
          obtain ⟨s⟩ := l.signedBy hL hkey hrun hi hold hnew
          exact absurd s.answered (hend _)
        · rw [hsame]

end Runs

/-! ### An upload and a download -/

namespace Allows

variable {w : World τ} {ths : List (Thread (server τ P))} {req : Request}
  {events : List (ServerEvent τ P)}

theorem withinLimit (h : ∀ header file, req = .sign header → App.upload header = .ok file →
    file.content.length ≤ bodyLimit) :
    Allows (fun _ s => WithinLimit s) w ths req events := by
  refine ⟨?_, ?_⟩
  · intro header file hreq
    exact h header file (Step.start.inj hreq)
  · intro n e k _ header file hreq
    cases hreq

theorem namesDumpable (h : ∀ e ∈ events, ∀ user filename pdf sig sha,
    e.cmd = .insertDocument user filename pdf sig sha → utf8 filename = true) :
    Allows NamesDumpable w ths req events := by
  refine ⟨?_, ?_⟩
  · intro i th user filename pdf sig sha k hs
    cases hs
  · intro n e k hn i th user filename pdf sig sha k' hs hth hrest _
    obtain ⟨rfl, -⟩ := Step.run.inj hs
    exact h e (List.mem_of_getElem? hn) user filename pdf sig sha (Allows.last_cmd hth hrest)

end Allows

namespace Sample

theorem storesDocuments : lib.StoresDocuments where
  base64 s _ := base64Ok s
  digest s := length_sha256 s
  signature k r data sig h := by
    obtain rfl : signature k.pub data = sig := Option.some.inj h
    exact le_trans (List.length_take_le _ _) (by decide)
  timestamp t := utf8_toDecimal t

/-- The signature of the document. -/
def pdfSignature : Bytes := signature key.pub pdf

/-- The store after an upload under a name. -/
theorem stored_upload {name stored : Bytes}
    (hname : (pgText name).bind (varchar 255) = some stored) :
    ∃ docs d, (sessionWith .empty).withDocument user.id name (base64Encode lib pdf)
      (base64Encode lib pdfSignature) (sha256Hex lib pdf) = some (sessionWith docs) ∧
      docs.rows = [d] ∧ d.id = 1 ∧ d.userId = user.id ∧ d.filename = stored := by
  have htext : ∀ s, pgText (base64Encode lib s) = some (base64Encode lib s) := fun s =>
    pgText_of_ascii fun _ hb => Base64.encode_ascii hb
  obtain ⟨docs, hins⟩ : ∃ docs, DocsTable.empty.insert user.id stored (base64Encode lib pdf)
      (base64Encode lib pdfSignature) (sha256Hex lib pdf) (sessionWith .empty).nowUs =
        some docs := by
    unfold DocsTable.insert
    rw [dif_pos (by decide)]
    exact ⟨_, rfl⟩
  have hrows := (DocsTable.insert_some hins).1
  exact ⟨docs, _, withDocument_eq hname (htext _) (htext _) (storesDocuments.sha_stored pdf)
    (by decide) hins, hrows, rfl, rfl, rfl⟩

/-- The thread of an upload. -/
def signThread (docs : DocsTable) (name : Bytes) : Thread (server ℚ app) :=
  ⟨.sign (uploads name), App.answer (jsonResponse (App.signedResponse docs.seq
      (App.storedName ⟨ascii "pdf", name, pdf⟩) (sha256Hex lib pdf) (base64Encode lib pdfSignature))
        201),
    tokenEvents app (sessionWith .empty) (toDecimal user.id) (hex draw) ++
      signEvents app (sessionWith .empty) (sessionWith docs) key user.id ⟨ascii "pdf", name, pdf⟩ []
        pdfSignature⟩

/-- A run that uploads the document. -/
theorem reach_sign {ok : Config (server ℚ app) → Step (server ℚ app) → Prop} {docs : DocsTable}
    {name : Bytes} (hname : name ≠ [])
    (hins : (sessionWith .empty).withDocument user.id name (base64Encode lib pdf)
      (base64Encode lib pdfSignature) (sha256Hex lib pdf) = some (sessionWith docs))
    (hok : Allows ok (sessionWith .empty) [] (.sign (uploads name)) (signThread docs name).log) :
    Reach ok (Config.fresh (sessionWith .empty)) ⟨sessionWith docs, [signThread docs name]⟩ := by
  have hstored : App.storedName ⟨ascii "pdf", name, pdf⟩ = name := if_neg hname
  have hbody := path_stored (P := app) (w := sessionWith .empty) (upload_uploads name)
    keyPair.signing (show lib.digestSign key [] pdf = some pdfSignature from rfl) user_id
    (by rw [hstored]; exact hins)
  have hpath := path_letIn (P := app) (w := sessionWith .empty) (r := .sign (uploads name)) rfl
    (presented _) payload_token readPayload_token (live_sessionWith _) hbody
  have hrun : Reach ok ⟨sessionWith .empty, []⟩ ⟨sessionWith docs, [] ++ [signThread docs name]⟩ :=
    reach_solo hpath ⟨rfl, rfl, rfl, rfl, rfl⟩ hok
  exact hrun

/-- The upload is within the limit. -/
theorem upload_within {name : Bytes} {header : HttpRequest} {file : FilePart}
    (hreq : Request.sign (uploads name) = .sign header) (hup : App.upload header = .ok file) :
    file.content.length ≤ bodyLimit := by
  obtain rfl := Request.sign.inj hreq
  rw [upload_uploads] at hup
  obtain rfl := Except.ok.inj hup
  show pdf.length ≤ bodyLimit
  decide

end Sample

/-- A document is uploaded and downloaded. -/
theorem documents_kept_sample :
    ∃ (c : Config (server ℚ Sample.app)) (th : Thread (server ℚ Sample.app)) (disposition : Bytes),
      Reach Tidy (Config.fresh (Sample.sessionWith .empty)) c ∧ c.threads[1]? = some th ∧
      th.req = .download (Sample.request none) 1 ∧
      th.rest = .ret (.response ⟨200, .file disposition Sample.pdf⟩) := by
  have hname : (pgText (ascii "a.pdf")).bind (varchar 255) = some (ascii "a.pdf") := by decide
  obtain ⟨docs, d, hins, hrows, hid, huser, -⟩ := Sample.stored_upload hname
  let b : Config (server ℚ Sample.app) :=
    ⟨Sample.sessionWith docs, [Sample.signThread docs (ascii "a.pdf")]⟩
  let th : Thread (server ℚ Sample.app) := ⟨.download (Sample.request none) d.id,
    .ret (.response ⟨200, .file (contentDisposition d.filename)
      (base64Decode Sample.lib d.pdfData)⟩),
    tokenEvents Sample.app (Sample.sessionWith docs) (toDecimal Sample.user.id) (hex Sample.draw) ++
      readEvents Sample.app (Sample.sessionWith docs) d⟩
  have hd : d ∈ (Sample.sessionWith docs).docs.rows := by
    show d ∈ docs.rows
    rw [hrows]
    exact List.mem_singleton_self d
  have hsign : Reach Tidy (Config.fresh (Sample.sessionWith .empty)) b := by
    refine Sample.reach_sign (by decide) hins
      ((Allows.withinLimit fun _ _ => Sample.upload_within).and
      (Allows.namesDumpable ?_))
    intro e he user filename pdf sig sha hcmd
    simp only [Sample.signThread, tokenEvents, signEvents, List.mem_append, List.mem_cons,
      List.not_mem_nil, or_false] at he
    rcases he with (rfl | rfl) | rfl | rfl <;> cases hcmd
    decide
  have hstoi : stoi (toDecimal Sample.user.id) = some d.userId := by
    rw [huser]
    exact Sample.user_id
  have hbody := path_download (P := Sample.app) hd hstoi
  have hpath := path_letIn (P := Sample.app) (w := Sample.sessionWith docs)
    (r := .download (Sample.request none) d.id) rfl (Sample.presented none) Sample.payload_token
    Sample.readPayload_token (Sample.live_sessionWith _) hbody
  obtain ⟨l, -⟩ : ∃ l : Authenticated th d.userId, l.userId = toDecimal Sample.user.id :=
    authenticated (P := Sample.app) (w := Sample.sessionWith docs) rfl (Sample.presented none)
      Sample.payload_token Sample.readPayload_token hstoi hbody
  have hread : Reach Tidy b ⟨Sample.sessionWith docs,
      [Sample.signThread docs (ascii "a.pdf")] ++ [th]⟩ := by
    refine reach_solo hpath ⟨rfl, rfl, rfl, rfl, rfl, rfl⟩ ((Allows.withinLimit ?_).and
      (Allows.namesDumpable ?_))
    · intro header file hreq
      cases hreq
    · intro e he user filename pdf sig sha hcmd
      simp only [tokenEvents, readEvents, List.mem_append, List.mem_cons, List.not_mem_nil,
        or_false] at he
      rcases he with (rfl | rfl) | rfl | rfl | rfl <;> cases hcmd
  obtain ⟨i, th₁, hi, ⟨l₁⟩, -⟩ := (documents_kept (P := Sample.app) Sample.storesDocuments
    Sample.keyPair rfl hsign).1 d hd
  obtain rfl := List.mem_singleton.mp (List.mem_of_getElem? hi)
  have hcontent : l₁.file.content = Sample.pdf := by
    have hup := l₁.uploaded
    rw [← Request.sign.inj l₁.request, Sample.upload_uploads] at hup
    rw [← Except.ok.inj hup]
  have hnone : ¬ Removed (⟨Sample.sessionWith docs,
      [Sample.signThread docs (ascii "a.pdf")] ++ [th]⟩ :
      Config (server ℚ Sample.app)) d.id := by
    rintro ⟨j, header, th', hj, hreq, _⟩
    have hmem := List.mem_of_getElem? hj
    rcases List.mem_pair.mp hmem with rfl | rfl <;> cases hreq
  have hserved : ∀ e ∈ th.log, e.choice ≠ .threw := by
    intro e he
    simp only [th, tokenEvents, readEvents, List.mem_append, List.mem_cons, List.not_mem_nil,
      or_false] at he
    rcases he with (rfl | rfl) | rfl | rfl | rfl <;> exact fun h => by cases h
  have hdown := ((documents_kept (P := Sample.app) Sample.storesDocuments Sample.keyPair rfl
    (hsign.trans hread)).2.1 b i 1 _ th d l₁ hsign hread hi hnone (le_refl 1) rfl ⟨l⟩ trivial
    hserved
    (Sample.request none)).1 rfl
  refine ⟨_, th, contentDisposition d.filename, hsign.trans hread, rfl, ?_, hcontent ▸ hdown⟩
  show Request.download _ d.id = _
  rw [hid]

/-- **A row without an answer.**  PostgreSQL takes the name up to its NUL; what follows is not
UTF-8, so writing the response throws, and the row stays. -/
theorem documents_kept_nul :
    ∃ (c : Config (server ℚ Sample.app)) (th : Thread (server ℚ Sample.app)) (d : Document),
      Sample.lib.StoresDocuments ∧ Sample.signer.KeyPair Sample.lib Sample.key ∧
      Reach (fun _ s => WithinLimit s) (Config.fresh (Sample.sessionWith .empty)) c ∧
      c.threads = [th] ∧ th.req = .sign (Sample.uploads (ascii "a" ++ [0, 255])) ∧
      th.rest = .throw .json ∧ c.world.docs.rows = [d] := by
  have hname : (pgText (ascii "a" ++ [0, 255])).bind (varchar 255) = some (ascii "a") := by decide
  obtain ⟨docs, d, hins, hrows, -⟩ := Sample.stored_upload hname
  have hrun := Sample.reach_sign (by decide) hins
      (Allows.withinLimit fun _ _ => Sample.upload_within)
  have hutf8 : utf8 (App.storedName ⟨ascii "pdf", ascii "a" ++ [0, 255], Sample.pdf⟩) = false := by
    decide
  refine ⟨_, Sample.signThread docs (ascii "a" ++ [0, 255]), d, Sample.storesDocuments,
    Sample.keyPair, hrun, rfl, rfl, ?_, hrows⟩
  show App.answer (jsonResponse _ 201) = _
  rw [jsonResponse, signedResponse_dumpable, hutf8]
  rfl

end PqcApi

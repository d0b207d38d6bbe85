/-
From the server to the desk.

The server's door asks for the time and for a session, and has no effect on the world.  So what
a run of the server does to documents a run of the desk does, in which a request begins with
its user known and rests until it is through the door.
-/
import PqcApi.Documents.Desk

namespace PqcApi

open Concurrent

variable {τ : Type} [Field τ] [LinearOrder τ] [FloorRing τ] {P : App}

/-! ### Through the door -/

/-- The requests are for documents, and the door lets in the `i`-th as the user `who i`. -/
def Admitted (who : Nat → Bytes) (b : Config (server τ P)) : Prop :=
  ∀ i th, b.threads[i]? = some th → th.req.call.isSome ∧
    (th.log.length < 2 → ¬ th.rest.Done) ∧
    (2 ≤ th.log.length → ∃ user, ∃ l : Authenticated th user, l.userId = who i)

/-- What the desk sees of a request: it begins when it is through the door. -/
structure ThreadAtDesk (userId : Bytes) (th : Thread (server τ P)) (th' : Thread (desk τ P)) :
    Prop where
  asked : ∃ call, th.req.call = some call ∧ th'.req = (userId, call)
  stands : (th.log.length < 2 ∧ th'.rest = (desk τ P).program th'.req) ∨
    (2 ≤ th.log.length ∧ th'.rest = th.rest)

/-- What the desk sees of the server. -/
structure AtDesk (who : Nat → Bytes) (c : Config (server τ P)) (d : Config (desk τ P)) : Prop where
  world : d.world = c.world
  length : d.threads.length = c.threads.length
  threads : ∀ i th, c.threads[i]? = some th → ∃ th', d.threads[i]? = some th' ∧
    ThreadAtDesk (who i) th th'

/-- At the door only the clock and the session are asked for. -/
theorem door_effect {th : Thread (server τ P)} (hp : Path (P.program th.req) th.log th.rest)
    {call : DocumentCall} (hcall : th.req.call = some call) (hlen : th.log.length ≤ 2) :
    ∀ e ∈ th.log, e.cmd.effect = .none := by
  obtain ⟨header, hg⟩ := guarded_call (τ := τ) (P := P) hcall
  intro e he
  rcases guarded_path hp hg with ⟨hall, -⟩ | ⟨l, -⟩
  · rcases hall e he with hcmd | ⟨key, hcmd⟩
    · rw [hcmd]
      rfl
    · rw [hcmd]
      rfl
  · by_contra hne
    have hrest : l.rest = [] := by
      have hlog := congrArg List.length l.log
      rw [List.length_cons, List.length_cons] at hlog
      exact List.length_eq_zero_iff.mp (by omega)
    have hmem := l.mem_rest he hne
    rw [hrest] at hmem
    cases hmem

/-- A request that has just come through has its handler's own part before it. -/
theorem LetIn.through {th : Thread (server τ P)} (l : LetIn th) {call : DocumentCall}
    (hcall : th.req.call = some call) (hlen : th.log.length = 2) :
    th.rest = (desk τ P).program (l.userId, call) := by
  obtain ⟨header, hg⟩ := guarded_call (τ := τ) (P := P) hcall
  have hlog := congrArg List.length l.log
  rw [hlen, List.length_cons, List.length_cons] at hlog
  have hpath := l.path
  rw [List.length_eq_zero_iff.mp (show l.rest.length = 0 by omega), path_nil,
    l.body_eq hg] at hpath
  exact hpath.symm

/-- Whom the door lets in it has let in for good. -/
theorem LetIn.earlier {th₀ th : Thread (server τ P)} (l : LetIn th) (hcont : th₀.Continues th)
    (hp : Path (P.program th₀.req) th₀.log th₀.rest) (hlen : 2 ≤ th₀.log.length) :
    ∃ l₀ : LetIn th₀, l₀.userId = l.userId := by
  obtain ⟨hreq, ext, hlog, -⟩ := hcont
  have hg : P.guarded th₀.req = some (l.header, l.body) := by
    rw [← hreq]
    exact l.guarded
  have hprefix : th₀.log = l.clock :: l.looked :: th₀.log.drop 2 := by
    have hsplit := hlog.symm.trans l.log
    match hlog₀ : th₀.log with
    | [] | [_] =>
        rw [hlog₀] at hlen
        exact absurd hlen (by simp)
    | e₁ :: e₂ :: rest =>
        rw [hlog₀] at hsplit
        obtain ⟨rfl, htail⟩ := List.cons.inj hsplit
        obtain ⟨rfl, -⟩ := List.cons.inj htail
        rfl
  rw [App.program_guarded hg, App.answer, App.authenticated_eq, l.presented, Option.bind_some,
    l.payload_eq, hprefix] at hp
  rcases path_call.mp hp with ⟨hnil, -⟩ | ⟨e₁, now, rest₁, -, h₁, hl₁, hp₁⟩
  · cases hnil
  obtain ⟨rfl, rfl⟩ := List.cons.inj hl₁
  obtain rfl : now = l.time := h₁.inj l.clock_is
  simp only [l.read] at hp₁
  rcases path_call.mp hp₁ with ⟨hnil, -⟩ | ⟨e₂, reply, rest₂, -, h₂, hl₂, hp₂⟩
  · cases hnil
  obtain ⟨rfl, rfl⟩ := List.cons.inj hl₂
  obtain rfl : reply = some (.string l.userId) := h₂.inj l.looked_is
  simp only [if_true] at hp₂
  exact ⟨⟨l.header, l.body, hg, l.token, l.payload, l.userId, l.sessionId, l.time, l.clock,
    l.looked, _, hprefix, l.presented, l.payload_eq, l.clock_is, l.read, l.looked_is, hp₂⟩, rfl⟩

/-- So it is enough to look at the end of a run. -/
theorem Admitted.earlier {ok : Config (server τ P) → Step (server τ P) → Prop} {who : Nat → Bytes}
    {b c : Config (server τ P)} (hc : Admitted who c) (hb : b.Sound) (h : Reach ok b c) :
    Admitted who b := by
  intro i th₀ hi
  obtain ⟨th, hth, hcont⟩ := h.thread hi
  obtain ⟨hcall, hdoor, hpast⟩ := hc i th hth
  refine ⟨by rw [← hcont.1]; exact hcall, ?_, ?_⟩
  · intro hlen hdone
    obtain rfl := hcont.eq_of_done hdone
    exact hdoor hlen hdone
  · intro hlen
    have hlen' : 2 ≤ th.log.length := by
      obtain ⟨-, ext, hlog, -⟩ := hcont
      rw [hlog, List.length_append]
      omega
    obtain ⟨user, l, hwho⟩ := hpast hlen'
    obtain ⟨l₀, hl₀⟩ := l.earlier hcont (hb th₀ (List.mem_of_getElem? hi)) hlen
    exact ⟨user, { l₀ with user_eq := by rw [hl₀]; exact l.user_eq }, hl₀.trans hwho⟩

section Simulation

variable {who : Nat → Bytes} {b c : Config (server τ P)} {d : Config (desk τ P)}

/-- Another request on both sides. -/
theorem AtDesk.append (hseen : AtDesk who b d) {th : Thread (server τ P)} {th' : Thread (desk τ P)}
    (h : ThreadAtDesk (who b.threads.length) th th') :
    AtDesk who ⟨b.world, b.threads ++ [th]⟩ ⟨d.world, d.threads ++ [th']⟩ := by
  refine ⟨hseen.world, by simp [hseen.length], ?_⟩
  intro j th₁ hj
  by_cases hlt : j < b.threads.length
  · rw [List.getElem?_append_left hlt] at hj
    rw [List.getElem?_append_left (hseen.length ▸ hlt)]
    exact hseen.threads j th₁ hj
  · have hlen := (List.getElem?_eq_some_iff.mp hj).1
    rw [List.length_append, List.length_singleton] at hlen
    obtain rfl : j = b.threads.length := by omega
    rw [List.getElem?_concat_length, Option.some.injEq] at hj
    subst hj
    refine ⟨th', ?_, h⟩
    rw [← hseen.length]
    exact List.getElem?_concat_length

/-- A request going on on both sides. -/
theorem AtDesk.set (hseen : AtDesk who b d) (w : World τ) {i : Nat} {th : Thread (server τ P)}
    {th' : Thread (desk τ P)} (h : ThreadAtDesk (who i) th th') :
    AtDesk who ⟨w, b.threads.set i th⟩ ⟨w, d.threads.set i th'⟩ := by
  refine ⟨rfl, by simp [hseen.length], ?_⟩
  intro j th₁ hj
  by_cases hij : i = j
  · subst hij
    have hlt := (List.getElem?_eq_some_iff.mp hj).1
    rw [List.length_set] at hlt
    rw [List.getElem?_set_self hlt, Option.some.injEq] at hj
    subst hj
    exact ⟨th', List.getElem?_set_self (hseen.length ▸ hlt), h⟩
  · rw [List.getElem?_set_ne hij] at hj ⊢
    exact hseen.threads j th₁ hj

/-- A command at the door leaves the request where the desk sees it. -/
theorem ThreadAtDesk.door {th th₁ : Thread (server τ P)} {th' : Thread (desk τ P)} {userId : Bytes}
    (h : ThreadAtDesk userId th th') (hreq : th₁.req = th.req)
    (hlen : th₁.log.length = th.log.length + 1) (hdoor : th.log.length < 2)
    (hrest : th'.rest = (desk τ P).program th'.req)
    (hpast : 2 ≤ th₁.log.length → ∃ user, ∃ l : Authenticated th₁ user, l.userId = userId) :
    ThreadAtDesk userId th₁ th' := by
  obtain ⟨call, hcall, hreq'⟩ := h.asked
  rw [← hreq] at hcall
  refine ⟨⟨call, hcall, hreq'⟩, ?_⟩
  by_cases hshort : th₁.log.length < 2
  · exact Or.inl ⟨hshort, hrest⟩
  · refine Or.inr ⟨Nat.not_lt.mp hshort, ?_⟩
    obtain ⟨user, l, huser⟩ := hpast (Nat.not_lt.mp hshort)
    rw [hrest, hreq', ← huser]
    exact (l.through hcall (by omega)).symm

/-- **One step of the server** is a step of the desk, or none. -/
theorem AtDesk.next (hseen : AtDesk who b d) (hb : b.Sound) (hc : Admitted who c)
    {s : Step (server τ P)}
    (hok : Under Calm b s) (hs : b.next s = some c) :
    AtDesk who c d ∨ ∃ s' d', Under Calm d s' ∧ d.next s' = some d' ∧ AtDesk who c d' := by
  have hsound : c.Sound := hb.next hs
  rcases Config.next_cases hs with ⟨m, w, rfl, hm, rfl⟩ | ⟨r, rfl, rfl⟩ |
    ⟨i, ch, req, cmd, k, log, r, w, rfl, hi, hx, rfl⟩
  · refine Or.inr ⟨.move m, ⟨w, d.threads⟩, trivial, ?_, rfl, hseen.length, hseen.threads⟩
    show (d.world.move m).map _ = _
    rw [hseen.world, show b.world.move m = some w from hm]
    rfl
  · obtain ⟨hcall, -⟩ := hc b.threads.length _ List.getElem?_concat_length
    obtain ⟨call, hcall⟩ := Option.isSome_iff_exists.mp hcall
    refine Or.inr ⟨.start (who b.threads.length, call), _, trivial, rfl, hseen.append ?_⟩
    exact ⟨⟨call, hcall, rfl⟩, Or.inl ⟨Nat.zero_lt_two, rfl⟩⟩
  · obtain ⟨th', hth', hthread⟩ := hseen.threads i _ hi
    have hi' := List.getElem?_set_self (a := (⟨req, k r, log ++ [⟨cmd, ch, b.world, r, w⟩]⟩ :
      Thread (server τ P))) (List.getElem?_eq_some_iff.mp hi).1
    have hlen : (log ++ [(⟨cmd, ch, b.world, r, w⟩ : ServerEvent τ P)]).length =
        log.length + 1 := by
      rw [List.length_append, List.length_singleton]
    rcases hthread.stands with ⟨hdoor, hrest'⟩ | ⟨hpast, hrest'⟩
    · -- the door: the desk does not move
      obtain ⟨call, hcall, -⟩ := hthread.asked
      have hnone := door_effect (hsound _ (List.mem_of_getElem? hi')) hcall
        (by dsimp only at hdoor ⊢; omega) ⟨cmd, ch, b.world, r, w⟩ (by simp)
      obtain rfl : w = b.world := exec_none (L := P.lib) hx hnone
      have hthread' : ThreadAtDesk (who i) ⟨req, k r, _⟩ th' :=
        hthread.door rfl hlen hdoor hrest' (hc i _ hi').2.2
      obtain ⟨hlt, hget⟩ := List.getElem?_eq_some_iff.mp hth'
      have hsame := hseen.set b.world hthread'
      rw [← hget, List.set_getElem_self, ← hseen.world] at hsame
      exact Or.inl (hseen.world ▸ hsame)
    · -- past it, both take the same step
      have hx' : (desk τ P).exec d.world cmd ch = some (r, w) := by
        rw [hseen.world]
        exact hx
      refine Or.inr ⟨.run i ch, _, ?_, Config.next_run hth' hrest' hx', hseen.set w ?_⟩
      · intro th cmd' k' hth hcmd
        rw [hth', Option.some.injEq] at hth
        subst hth
        rw [hrest'] at hcmd
        rw [hseen.world]
        exact hok _ cmd' k' hi hcmd
      · exact ⟨hthread.asked, Or.inr ⟨by dsimp only at hpast ⊢; omega, rfl⟩⟩

/-- **The desk sees every run of the server.** -/
theorem desk_sees {w : World τ} {past : List (Config (server τ P))}
    (hrun : Visits (Under Calm) (Config.fresh w) past c) (hc : Admitted who c) :
    ∃ past' d, Visits (Y := desk τ P) (Under Calm) (Config.fresh w) past' d ∧ AtDesk who c d ∧
      ∀ b ∈ past, ∃ b' ∈ past', AtDesk who b b' := by
  induction hrun with
  | refl =>
      have hfresh : AtDesk who (Config.fresh w : Config (server τ P)) (Config.fresh w) := by
        refine ⟨rfl, rfl, ?_⟩
        intro i th hth
        cases hth
      refine ⟨_, _, .refl, hfresh, ?_⟩
      intro b hb
      rw [List.mem_singleton.mp hb]
      exact ⟨_, List.mem_singleton_self _, hfresh⟩
  | @tail past b c s h hok hs ih =>
      have hsound := h.reach.path (Config.fresh_sound w)
      obtain ⟨past', d, hd, hseen, hpast⟩ :=
        ih (hc.earlier hsound ((Reach.refl b).tail hok hs))
      have hall : ∀ {past'' : List (Config (desk τ P))} {d' : Config (desk τ P)}, past' ⊆ past'' →
          d' ∈ past'' → AtDesk who c d' → ∀ b ∈ c :: past, ∃ b' ∈ past'', AtDesk who b b' := by
        intro past'' d' hsub hmem hc b hb
        rcases List.mem_cons.mp hb with rfl | hold
        · exact ⟨d', hmem, hc⟩
        · obtain ⟨b', hb', hsee⟩ := hpast b hold
          exact ⟨b', hsub hb', hsee⟩
      rcases hseen.next hsound hc hok hs with hc | ⟨s', d', hok', hs', hc⟩
      · have hmem : d ∈ past' := by
          cases hd with
          | refl => exact List.mem_singleton_self _
          | tail => exact List.mem_cons_self
        exact ⟨past', d, hd, hc, hall (List.Subset.refl _) hmem hc⟩
      · exact ⟨d' :: past', d', hd.tail hok' hs', hc,
          hall (List.subset_cons_self _ _) List.mem_cons_self hc⟩

/-- A request that has ended the desk sees ended. -/
theorem AtDesk.ended (hseen : AtDesk who c d) (hc : Admitted who c) {i : Nat}
    {th : Thread (server τ P)}
    (hi : c.threads[i]? = some th) (hdone : th.rest.Done) :
    ∃ th', d.threads[i]? = some th' ∧ th'.rest = th.rest := by
  obtain ⟨th', hth', -, hstands⟩ := hseen.threads i th hi
  rcases hstands with ⟨hdoor, -⟩ | ⟨-, hrest⟩
  · exact absurd hdone ((hc i th hi).2.1 hdoor)
  · exact ⟨th', hth', hrest⟩

end Simulation

end PqcApi

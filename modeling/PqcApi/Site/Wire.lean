/-
The site over its Redis connection.

The threads of the server share one hiredis context, which is not thread-safe: `RedisClient`
takes its mutex for every command.  Here the calls of the site go over that connection, each
statement on its own and everything else in between.  What hiredis does is what it documents:
a command is put into the output buffer; the reply is the first one in the input buffer, or
else the output buffer is written and a reply is waited for; after an error the context
answers nothing any more.

The claim is that this is the site as the other modules have it, where a command to Redis
happens at a stroke (`calls_atomic`), and that every visit ends (`visits_end`).
-/
import PqcApi.Site.Lengths
import PqcApi.Site.Refinement

namespace PqcApi

open Concurrent

variable {τ : Type} [Field τ] [LinearOrder τ] [FloorRing τ] {L : Lib}

/-! ### What Redis keeps is seen by Redis only -/

/-- The command goes to Redis. -/
def Cmd.toRedis : Cmd → Bool
  | .setex .. => true
  | .get _ => true
  | .del _ => true
  | _ => false

/-- The world with other keys in Redis. -/
def World.withRedis (w : World τ) (keys : Bytes → Option Entry) : World τ :=
  { w with redis := keys }

/-- The worlds differ in what Redis keeps, and nowhere else. -/
def World.SameBesides (w v : World τ) : Prop :=
  v = w.withRedis v.redis

omit [Field τ] [LinearOrder τ] [FloorRing τ] in
theorem statement_withRedis {α : Type} {w ran w' : World τ} {reply r : Option α} {ch : Choice}
    (h : statement w reply ran ch = some (r, w')) (keys : Bytes → Option Entry) :
    statement (w.withRedis keys) reply (ran.withRedis keys) ch =
      some (r, w'.withRedis keys) := by
  unfold statement at *
  split at h
  · obtain ⟨rfl, rfl⟩ := Prod.mk.inj (Option.some.inj h)
    rfl
  · obtain ⟨rfl, rfl⟩ := Prod.mk.inj (Option.some.inj h)
    rfl
  · cases h

omit [Field τ] [LinearOrder τ] [FloorRing τ] in
theorem randomized_withRedis {α : Type} {w w' : World τ} {f : Bytes → Option α} {r : Option α}
    {ch : Choice} (h : randomized w f ch = some (r, w')) (keys : Bytes → Option Entry) :
    randomized (w.withRedis keys) f ch = some (r, w'.withRedis keys) := by
  unfold randomized at *
  split at h
  · obtain ⟨rfl, rfl⟩ := Prod.mk.inj (Option.some.inj h)
    rfl
  · obtain ⟨rfl, rfl⟩ := Prod.mk.inj (Option.some.inj h)
    rfl
  · cases h

theorem withUser_withRedis (w : World τ) (username hash : Bytes) (keys : Bytes → Option Entry) :
    (w.withRedis keys).withUser username hash =
      (w.withUser username hash).map fun v => v.withRedis keys := by
  simp only [World.withUser, World.withRedis, World.nowUs, Option.bind_eq_bind, Option.map_bind,
    Option.pure_def, Function.comp_def, Option.map_some]

theorem withDocument_withRedis (w : World τ) (userId : Int) (filename pdf sig sha : Bytes)
    (keys : Bytes → Option Entry) :
    (w.withRedis keys).withDocument userId filename pdf sig sha =
      (w.withDocument userId filename pdf sig sha).map fun v => v.withRedis keys := by
  by_cases huser : userId ∈ w.users.rows.map User.id
  · simp only [World.withDocument, World.withRedis, World.nowUs, Option.bind_eq_bind,
      Option.map_bind, Option.pure_def, Function.comp_def, huser, if_true, Option.map_some]
  · simp only [World.withDocument, World.withRedis, World.nowUs, Option.bind_eq_bind,
      Option.map_bind, Option.pure_def, Function.comp_def, huser, if_false, Option.map_none]

/-- A command that is not for Redis does not look at its keys. -/
theorem exec_withRedis {w w' : World τ} {c : Cmd} {ch : Choice} {r : Reply τ c}
    (hc : c.toRedis = false) (h : exec L w c ch = some (r, w')) (keys : Bytes → Option Entry) :
    exec L (w.withRedis keys) c ch = some (r, w'.withRedis keys) := by
  cases c with
  | setex | get | del => cases hc
  | now =>
      simp only [exec] at *
      split at h
      · rename_i hdone
        obtain ⟨rfl, rfl⟩ := Prod.mk.inj (Option.some.inj h)
        exact if_pos hdone
      · cases h
  | randombytes =>
      simp only [exec] at *
      split at h
      · split at h
        · rename_i hlength
          obtain ⟨rfl, rfl⟩ := Prod.mk.inj (Option.some.inj h)
          exact if_pos hlength
        · cases h
      · cases h
  | pwhash pw => exact randomized_withRedis h keys
  | digestSign key data => exact randomized_withRedis h keys
  | userByName name => exact statement_withRedis h keys
  | documentById id => exact statement_withRedis h keys
  | documentsByUser user => exact statement_withRedis h keys
  | pdfData id => exact statement_withRedis h keys
  | ownedBy doc user => exact statement_withRedis h keys
  | deleteDocument id => exact statement_withRedis h keys
  | insertUser name hash =>
      simp only [exec] at *
      rw [withUser_withRedis]
      cases hrow : w.withUser name hash with
      | none =>
          rw [hrow] at h
          exact statement_withRedis h keys
      | some v =>
          rw [hrow] at h
          exact statement_withRedis h keys
  | insertDocument user name pdf sig sha =>
      simp only [exec] at *
      rw [withDocument_withRedis]
      cases hrow : w.withDocument user name pdf sig sha with
      | none =>
          rw [hrow] at h
          exact statement_withRedis h keys
      | some v =>
          rw [hrow] at h
          exact statement_withRedis h keys

omit [FloorRing τ] in
/-- Nor does what the environment does, but for dropping a key. -/
theorem move_withRedis {w w' : World τ} {m : Move τ} (h : w.move m = some w')
    (keys : Bytes → Option Entry) :
    ∃ v, (w.withRedis keys).move m = some v ∧ w'.SameBesides v := by
  cases m with
  | tick d =>
      simp only [World.move] at *
      split at h
      · rename_i hd
        obtain rfl := Option.some.inj h
        exact ⟨_, if_pos hd, rfl⟩
      · cases h
  | drop key =>
      obtain rfl := Option.some.inj h
      exact ⟨_, rfl, rfl⟩
  | burnUser =>
      obtain rfl := Option.some.inj h
      exact ⟨_, rfl, rfl⟩
  | burnDocument =>
      obtain rfl := Option.some.inj h
      exact ⟨_, rfl, rfl⟩

omit [Field τ] [LinearOrder τ] [FloorRing τ] in
theorem operate_withRedis {w w' : World τ} {o : Operation} (h : w.operate o = some w')
    (keys : Bytes → Option Entry) :
    (w.withRedis keys).operate o = some (w'.withRedis keys) := by
  cases o with
  | setRole username role =>
      obtain ⟨name, hname, rfl⟩ := Option.map_eq_some_iff.mp h
      simp only [World.operate, hname, Option.map_some]
      rfl
  | remove id =>
      obtain rfl := Option.some.inj h
      rfl

/-- What Redis does is seen in its keys only. -/
theorem exec_toRedis {w w' : World τ} {c : Cmd} {ch : Choice} {r : Reply τ c}
    (hc : c.toRedis = true) (h : exec L w c ch = some (r, w')) : w.SameBesides w' := by
  cases c with
  | setex key ttl value =>
      rw [exec_setex h]
      split <;> rfl
  | get key =>
      rw [exec_none h rfl]
      rfl
  | del key =>
      rw [exec_del h]
      split <;> rfl
  | now | randombytes | pwhash | userByName | insertUser | insertDocument | documentById
  | documentsByUser | pdfData | ownedBy | deleteDocument | digestSign => cases hc

/-! ### Redis, and the connection to it -/

theorem SameBesides.exec {w w' v : World τ} {c : Cmd} {ch : Choice} {r : Reply τ c}
    (hc : c.toRedis = false) (h : exec L w c ch = some (r, w')) (hs : w.SameBesides v) :
    ∃ v', PqcApi.exec L v c ch = some (r, v') ∧ w'.SameBesides v' := by
  rw [hs]
  exact ⟨_, exec_withRedis hc h v.redis, rfl⟩

/-- A reply, if there is one. -/
def replied (o : Option (Option RedisReply × World τ)) : Option (RedisReply × World τ) :=
  o.bind fun a => a.1.map fun m => (m, a.2)

omit [Field τ] [LinearOrder τ] [FloorRing τ] in
theorem replied_eq_some {o : Option (Option RedisReply × World τ)} {m : RedisReply}
    {w : World τ} : replied o = some (m, w) ↔ o = some (some m, w) := by
  rcases o with _ | ⟨_ | m', w'⟩ <;> simp [replied]

omit [Field τ] [LinearOrder τ] [FloorRing τ] in
/-- What has been answered may as well not have been heard. -/
theorem redisCommand_unheard {w ran w' : World τ} {reply m : RedisReply} {ch : Choice}
    (h : redisCommand w reply ran ch = some (some m, w')) :
    ∃ ch', redisCommand w reply ran ch' = some (none, w') := by
  unfold redisCommand at h
  split at h
  · obtain ⟨-, rfl⟩ := Prod.mk.inj (Option.some.inj h)
    exact ⟨.lost true, rfl⟩
  · obtain ⟨-, rfl⟩ := Prod.mk.inj (Option.some.inj h)
    exact ⟨.lost false, rfl⟩
  · cases h
  · cases h
  · cases h

namespace Site

variable {S : Site}

/-- `redisCommand` of the site: what Redis makes of a command, if it answers. -/
def serve (S : Site) (w : World τ) (c : ((services τ).extend looks).Cmd) (ch : Choice) :
    Option (RedisReply × World τ) :=
  match c with
  | .inl (.setex key ttl value) => replied (exec S.lib w (.setex key ttl value) ch)
  | .inl (.get key) => replied (exec S.lib w (.get key) ch)
  | .inl (.del key) => replied (exec S.lib w (.del key) ch)
  | _ => none

/-- What `redisCommand` returns; nothing but a command to Redis is asked over the connection. -/
def reading : (c : ((services τ).extend looks).Cmd) → Option RedisReply →
    ((services τ).extend looks).Reply c
  | .inl (.setex _ _ _), m => m
  | .inl (.get _), m => m
  | .inl (.del _), m => m
  | .inl .now, _ => (0 : τ)
  | .inl .randombytes, _ => ([] : Bytes)
  | .inl (.pwhash _), _ => (none : Option Bytes)
  | .inl (.userByName _), _ => (none : Option (Option User))
  | .inl (.insertUser _ _), _ => (none : Option Unit)
  | .inl (.insertDocument _ _ _ _ _), _ => (none : Option Int)
  | .inl (.documentById _), _ => (none : Option (Option Document))
  | .inl (.documentsByUser _), _ => (none : Option (List Document))
  | .inl (.pdfData _), _ => (none : Option (Option Bytes))
  | .inl (.ownedBy _ _), _ => (none : Option Bool)
  | .inl (.deleteDocument _), _ => (none : Option Bool)
  | .inl (.digestSign _ _), _ => (none : Option Bytes)
  | .inr (.userById _), _ => (none : Option (Option User))
  | .inr .time, _ => (0 : Int)

/-- The command goes over the connection. -/
def remote (c : ((services τ).extend looks).Cmd) : Bool :=
  Sum.elim Cmd.toRedis (fun _ => false) c

theorem exec_serve {w w' : World τ} {c : ((services τ).extend looks).Cmd} {ch : Choice}
    {m : RedisReply} (h : S.serve w c ch = some (m, w')) :
    (site τ S).exec w c ch = some (reading c (some m), w') := by
  unfold serve at h
  split at h
  · exact replied_eq_some.mp h
  · exact replied_eq_some.mp h
  · exact replied_eq_some.mp h
  · cases h

theorem exec_unheard {w w' : World τ} {c : ((services τ).extend looks).Cmd} {ch : Choice}
    {m : RedisReply} (h : S.serve w c ch = some (m, w')) :
    ∃ ch', (site τ S).exec w c ch' = some (reading c none, w') := by
  unfold serve at h
  split at h
  · exact redisCommand_unheard (replied_eq_some.mp h)
  · exact redisCommand_unheard (replied_eq_some.mp h)
  · exact redisCommand_unheard (replied_eq_some.mp h)
  · cases h

/-- A command to Redis may be lost before it is run. -/
theorem exec_unserved (w : World τ) {c : ((services τ).extend looks).Cmd}
    (hc : remote c = true) :
    ∃ ch, (site τ S).exec w c ch = some (reading c none, w) := by
  rcases c with c | c
  · cases c with
    | setex | get | del => exact ⟨.lost false, rfl⟩
    | now | randombytes | pwhash | userByName | insertUser | insertDocument | documentById
    | documentsByUser | pdfData | ownedBy | deleteDocument | digestSign => cases hc
  · cases hc

theorem same_serve {w w' v : World τ} {c : ((services τ).extend looks).Cmd} {ch : Choice}
    {m : RedisReply} (hc : remote c = true) (h : S.serve w c ch = some (m, w'))
    (hs : w.SameBesides v) : w'.SameBesides v := by
  rcases c with c | c
  · have hw : w.SameBesides w' := exec_toRedis hc (exec_serve h)
    unfold World.SameBesides at *
    rw [hw, hs]
    rfl
  · cases hc

theorem same_exec {w w' v : World τ} {c : ((services τ).extend looks).Cmd} {ch : Choice}
    {r : ((services τ).extend looks).Reply c} (hc : remote c = false)
    (h : (site τ S).exec w c ch = some (r, w')) (hs : w.SameBesides v) :
    ∃ v', (site τ S).exec v c ch = some (r, v') ∧ w'.SameBesides v' := by
  rcases c with c | c
  · exact SameBesides.exec hc h hs
  · obtain ⟨hread, rfl⟩ := Front.exec_inr h
    refine ⟨v, ?_, hs⟩
    have hlook : v.look c ch = some r := by
      rw [hs]
      cases c with
      | userById id =>
          obtain ⟨a, ha, rfl⟩ := Option.map_eq_some_iff.mp hread
          exact Option.map_eq_some_iff.mpr ⟨_, statement_withRedis ha v.redis, rfl⟩
      | time => exact hread
    show (v.look c ch).map _ = _
    rw [hlook]
    rfl

theorem same_move {w w' v : World τ} {m : (site τ S).Move}
    (h : (site τ S).move w m = some w') (hs : w.SameBesides v) :
    ∃ v', (site τ S).move v m = some v' ∧ w'.SameBesides v' := by
  rw [hs]
  rcases m with m | o
  · exact move_withRedis h v.redis
  · exact ⟨_, operate_withRedis h v.redis, rfl⟩

variable (τ) in
/-- Redis, as the site reaches it. -/
def redis (S : Site) : Service (site τ S) where
  Wire := RedisReply
  remote := remote
  serve := S.serve
  reading := reading
  Same := World.SameBesides
  answered := fun _ h => exec_serve h
  unheard := fun _ h => exec_unheard h
  unserved := exec_unserved
  same_refl := fun _ => rfl
  same_serve := same_serve
  same_exec := same_exec
  same_move := same_move

/-! ### The site over the connection -/

/-- Redis has a reply to every command. -/
theorem serve_done (w : World τ) {c : ((services τ).extend looks).Cmd} (hc : remote c = true) :
    ∃ r, S.serve w c .done = some r := by
  rcases c with c | c
  · cases c with
    | setex | get | del => exact ⟨_, rfl⟩
    | now | randombytes | pwhash | userByName | insertUser | insertDocument | documentById
    | documentsByUser | pdfData | ownedBy | deleteDocument | digestSign => cases hc
  · cases hc

/-- Every command can be answered, by Redis and by the others. -/
theorem answering : Wired.Answering (S.redis τ) where
  serve := fun w _ hc => ⟨.done, serve_done w hc⟩
  own := by
    intro w c hc
    rcases c with c | c
    · cases c with
      | setex | get | del => cases hc
      | now => exact ⟨.done, _, rfl⟩
      | randombytes => exact ⟨.random (List.replicate 32 0), _, rfl⟩
      | pwhash | digestSign => exact ⟨.threw, _, rfl⟩
      | userByName | documentById | documentsByUser | pdfData | ownedBy | deleteDocument =>
          exact ⟨.done, _, rfl⟩
      | insertUser name hash =>
          refine ⟨.threw, (none, w), ?_⟩
          show exec S.lib w (.insertUser name hash) .threw = _
          simp only [exec]
          cases w.withUser name hash <;> rfl
      | insertDocument user name pdf sig sha =>
          refine ⟨.threw, (none, w), ?_⟩
          show exec S.lib w (.insertDocument user name pdf sig sha) .threw = _
          simp only [exec]
          cases w.withDocument user name pdf sig sha <;> rfl
    · cases c with
      | userById id => exact ⟨.done, _, rfl⟩
      | time => exact ⟨.done, _, rfl⟩

end Site

namespace Sample

/-- What Redis is asked it answers. -/
theorem arrives_of_done {w : World ℚ} {ths : List (Thread (site ℚ controllers))} {v : Visit}
    {events : List (Event (site ℚ controllers).toMachine)}
    (hdone : ∀ e ∈ events, Site.remote e.cmd = true → e.choice = .done) :
    Allows (controllers.redis ℚ).Arrives w ths v events := by
  refine ⟨fun i ch th cmd k hs => (by cases hs), ?_⟩
  intro n e k hn i ch th cmd k' hs hth hrest hremote
  cases hs
  obtain rfl := Allows.last_cmd hth hrest
  rw [hdone e (List.mem_of_getElem? hn) hremote]
  exact Site.serve_done e.pre hremote

/-- The first account logs in and looks at its profile, over the connection. -/
theorem run_profile {okW : Wired (controllers.redis ℚ) → Act (site ℚ controllers) → Prop}
    (hok : ∀ c s, okW c s) :
    ∃ n, Wired.Run okW (.of (controllers.redis ℚ) (Config.fresh world)) n
      (.of (controllers.redis ℚ) ⟨session, [welcomeTh, profileTh]⟩) := by
  have hlogin : Reach (controllers.redis ℚ).Arrives (Config.fresh world)
      ⟨session, [welcomeTh]⟩ := by
    refine reach_welcomed (arrives_of_done fun e he hremote => ?_)
    simp only [welcomeTh, Site.welcomeThread, Site.welcomeEvents, loginEvents, List.map_cons,
      List.map_nil, List.mem_cons, List.not_mem_nil, or_false] at he
    rcases he with rfl | rfl | rfl | rfl
    · rfl
    · cases hremote
    · rfl
    · rfl
  have hprofile : Reach (controllers.redis ℚ).Arrives ⟨session, [welcomeTh]⟩
      ⟨session, [welcomeTh, profileTh]⟩ := by
    refine reach_profile (arrives_of_done fun e he _ => ?_)
    revert e
    simp [profileTh, lookedUp, Site.rowEvents, tokenEvents, Front.event]
  exact Wired.realizes hok (hlogin.trans hprofile)

/-- The token of a visit is looked at, but its session cannot be looked up. -/
def clock : ServerEvent ℚ app := ⟨.now, .done, session, session.now, session⟩

def lost : ServerEvent ℚ app :=
  ⟨.get (sessionKey (hex draw)), .lost true, session, none, session⟩

/-- Then the visit is refused. -/
def unheardTh : Thread (site ℚ controllers) :=
  ⟨.getProfile (request none), .ret (errorResponse "Unauthorized" 401),
    [clock, lost].map (controllers.front ℚ).event⟩

theorem path_unheard :
    Path (controllers.endpoint (τ := ℚ) unheardTh.req) unheardTh.log unheardTh.rest := by
  have hserver : Path (app.program (.verifyToken token)) [clock, lost] (.ret (.user none)) :=
    path_verifyToken payload_token readPayload_token rfl
  rw [← back_request none] at hserver
  have hbehind := Front.Behind.of_visit (X := controllers.front ℚ)
    (r := .getProfile (request none)) hserver rfl (path_nil.mpr rfl)
  rw [List.append_nil] at hbehind
  exact hbehind.path_front

/-- The visit before its look-up. -/
def asking (k : Option RedisReply → Visiting ℚ HttpResponse) : Thread (site ℚ controllers) :=
  ⟨unheardTh.req, .call (S := (services ℚ).extend looks) (.inl (.get (sessionKey (hex draw)))) k,
    [clock].map (controllers.front ℚ).event⟩

theorem path_asking :
    ∃ k, Path (controllers.endpoint unheardTh.req) (asking k).log (asking k).rest ∧
      k none = unheardTh.rest := by
  have hpath : Path (controllers.endpoint (τ := ℚ) unheardTh.req)
      ([clock].map (controllers.front ℚ).event ++ [lost].map (controllers.front ℚ).event)
      unheardTh.rest := path_unheard
  obtain ⟨q, hasked, hlost⟩ := hpath.split
  cases q with
  | ret r => exact hlost.elim
  | throw e => exact hlost.elim
  | call cmd k =>
      obtain ⟨ch, w, r, w', -, hevent, hend⟩ := hlost
      cases hevent
      exact ⟨k, hasked, (path_nil.mp hend)⟩

/-- **Two visits have their tokens looked at**, and the connection fails before the first hears
what Redis has answered it. -/
theorem run_unheard {okW : Wired (controllers.redis ℚ) → Act (site ℚ controllers) → Prop}
    (hok : ∀ c s, okW c s) :
    ∃ n c, Wired.Run okW (.of (controllers.redis ℚ) (Config.fresh session)) n c ∧
      c.line.err = true ∧
      c.clients = [⟨unheardTh.standing, .out⟩, ⟨unheardTh.standing, .out⟩] := by
  obtain ⟨k, hasked, hrefused⟩ := path_asking
  have harrives : ∀ ths, Allows (controllers.redis ℚ).Arrives session ths unheardTh.req
      (asking k).log := fun ths => arrives_of_done (List.forall_mem_singleton.mpr fun _ => rfl)
  have hjoined : Joined session (asking k).log session := ⟨rfl, rfl⟩
  have hstanding : Reach (controllers.redis ℚ).Arrives (Config.fresh session)
      ⟨session, [asking k, asking k]⟩ :=
    (reach_solo hasked hjoined (harrives [])).trans
      (reach_solo hasked hjoined (harrives [asking k]))
  obtain ⟨n, hrun⟩ := Wired.realizes hok hstanding
  have hget : (controllers.redis ℚ).remote (.inl (.get (sessionKey (hex draw)))) = true := rfl
  have hserve : (controllers.redis ℚ).serve session (.inl (.get (sessionKey (hex draw)))) .done =
      some (session.getReply (sessionKey (hex draw)), session) := rfl
  let both : Wired (controllers.redis ℚ) := .of _ ⟨session, [asking k, asking k]⟩
  have hfirst : both.At 0 .out (asking k).standing (.inl (.get (sessionKey (hex draw)))) k :=
    ⟨rfl, rfl⟩
  let told : Client (controllers.redis ℚ) := ⟨⟨unheardTh.req, k none,
    (asking k).standing.answers ++ [⟨.inl (.get (sessionKey (hex draw))), none⟩]⟩, .out⟩
  have hlost : Wired.Run okW both 6
      ⟨session, [told, ⟨(asking k).standing, .out⟩], none, ⟨[], [], [], true⟩⟩ :=
    Wired.Run.lost hok rfl rfl hfirst hget hserve
  have hsecond : (⟨session, [told, ⟨(asking k).standing, .out⟩], none, ⟨[], [], [], true⟩⟩ :
      Wired (controllers.redis ℚ)).At 1 .out (asking k).standing
        (.inl (.get (sessionKey (hex draw)))) k := ⟨rfl, rfl⟩
  have hdead := Wired.Run.dead hok rfl rfl hsecond hget
  have htold : told = ⟨unheardTh.standing, .out⟩ := by
    simp only [told, hrefused]
    rfl
  refine ⟨_, _, (hrun.trans hlost).trans hdead, rfl, ?_⟩
  rw [← htold]
  rfl

end Sample

namespace Site

variable {S : Site} {ok : Config (site τ S) → Step (site τ S) → Prop} {a : Config (site τ S)}
  {n : Nat} {c : Wired (S.redis τ)}

/-- **Calls to Redis are atomic.**  Whatever the visits do on the shared connection in whatever
order, and whenever it fails, a run of the site in which commands happen at a stroke has the
same visits.  What they have been answered so far they are answered there; those that are done
have ended the same way; and as long as the connection has not failed the world is the same. -/
theorem calls_atomic (hok : (S.redis τ).Lenient ok)
    (h : Wired.Run ((S.redis τ).Allows ok a) (.of (S.redis τ) a) n c) :
    ∃ b, Reach ok a b ∧ b.threads.length = c.clients.length ∧ c.world.SameBesides b.world ∧
      (c.line.err = false → c.world = b.world) ∧
      ∀ (i : Nat) visit, c.clients[i]? = some visit → ∃ th, b.threads[i]? = some th ∧
        th.req = visit.req ∧ visit.answers <+: th.log.map Event.answer ∧
        (visit.rest.Done → th.rest = visit.rest ∧ th.log.map Event.answer = visit.answers) := by
  obtain ⟨b, hb, hlength, hsame, hexact, hvisits⟩ := h.follows hok
  refine ⟨b, hb, hlength, hsame, hexact, fun i visit hi => ?_⟩
  obtain ⟨th, hth, hreq, hanswers, hdone⟩ := hvisits i visit hi
  refine ⟨th, hth, hreq, hanswers, fun hd => ?_⟩
  have hst := hdone hd
  exact ⟨congrArg Standing.rest hst, congrArg Standing.answers hst⟩

end Site

/-- **Two visits on a connection that fails**: one has sent its look-up, the other waits for the
lock.  They are refused as they are where a command happens at a stroke. -/
theorem calls_atomic_unheard :
    ∃ (n : Nat) (c : Wired (Sample.controllers.redis ℚ)) (b : Config (site ℚ Sample.controllers)),
      Wired.Run ((Sample.controllers.redis ℚ).Allows (fun _ _ => True)
        (Config.fresh Sample.session)) (.of _ (Config.fresh Sample.session)) n c ∧
      c.line.err = true ∧ Reach (fun _ _ => True) (Config.fresh Sample.session) b ∧
      b.threads.length = 2 ∧ c.world.SameBesides b.world ∧
      ∀ i < 2, ∃ th, b.threads[i]? = some th ∧ th.req = .getProfile (Sample.request none) ∧
        th.rest = .ret (errorResponse "Unauthorized" 401) ∧
        th.log.map Event.answer = Sample.unheardTh.log.map Event.answer := by
  obtain ⟨n, c, hrun, herr, hclients⟩ :=
    Sample.run_unheard (Wired.allows_true (Config.fresh Sample.session))
  obtain ⟨b, hb, hlength, hsame, -, hvisits⟩ :=
    Site.calls_atomic (fun _ _ _ _ _ _ _ _ _ => trivial) hrun
  rw [hclients] at hlength
  refine ⟨n, c, b, hrun, herr, hb, hlength, hsame, fun i hi => ?_⟩
  have hclient : c.clients[i]? = some ⟨Sample.unheardTh.standing, .out⟩ := by
    rw [hclients]
    interval_cases i <;> rfl
  obtain ⟨th, hth, hreq, -, hdone⟩ := hvisits i _ hclient
  obtain ⟨hrest, hanswers⟩ := hdone trivial
  exact ⟨th, hth, hreq, hrest, hanswers⟩

namespace Site

variable {S : Site} {n : Nat} {c : Wired (S.redis τ)}

/-- **Every visit ends.**  As long as a visit has not been answered, a visit or Redis can go on,
and together they execute at most 36 statements for a visit. -/
theorem visits_end {okW : Wired (S.redis τ) → Act (site τ S) → Prop} {w : World τ}
    (h : Wired.Run okW (.of (S.redis τ) (Config.fresh w)) n c) :
    n ≤ 36 * c.clients.length ∧
      ∀ (i : Nat) visit, c.clients[i]? = some visit → ¬ visit.rest.Done →
        ∃ s d, c.next s = some d ∧ s.statements = 1 := by
  have hlenient : (S.redis τ).Lenient fun _ _ => True := fun _ _ _ _ _ _ _ _ _ => trivial
  have hrun : Wired.Run ((S.redis τ).Allows (fun _ _ => True) (Config.fresh w)) _ n c :=
    h.mono fun c s _ => Wired.allows_true _ c s
  refine ⟨hrun.statements_le hlenient (Config.fresh_sound w) S.endpoint_atMost, ?_⟩
  intro i visit hi hbusy
  exact (hrun.sound hlenient).goes_on answering hi hbusy

end Site

/-- **The first account is answered soon.** -/
theorem visits_end_profile : ∃ n ≤ 72, Wired.Run (fun _ _ => True)
    (.of (Sample.controllers.redis ℚ) (Config.fresh Sample.world)) n
    (.of (Sample.controllers.redis ℚ)
      ⟨Sample.session, [Sample.welcomeTh, Sample.profileTh]⟩) := by
  obtain ⟨n, hrun⟩ := Sample.run_profile fun _ _ => trivial
  exact ⟨n, (Site.visits_end hrun).1, hrun⟩

end PqcApi

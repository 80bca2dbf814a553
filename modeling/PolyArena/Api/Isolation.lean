import PolyArena.Api.StoppedBots

/-!
# Users apart

1. `ApiAction.OfOthers`: the requests of other users, which the checks on the owner keep from a
   user's bots.
2. `other_users_isolated`: no run of them reaches a user's row, bots, orders or pool.
-/

namespace PolyArena

section

variable {db db' : Database} {userId : ℕ} {user : User} {bot bot' : Bot} {name new : BotName}
  {a : ApiAction}

/-! ## Other users -/

/-- The owner of the bot with a name. -/
def Database.userOf (db : Database) (name : BotName) : Option ℕ :=
  (db.bots.get name).bind Bot.userId

/-- A request of another user than `u`, or a transaction of `create_bo` for another user's bot. -/
def ApiAction.OfOthers (u : ℕ) (db : Database) : ApiAction → Prop
  | createBot userId .. => userId ≠ u
  | adjustBotBalance userId .. => userId ≠ u
  | deleteBot userId _ => userId ≠ u
  | renameBot userId .. => userId ≠ u
  | pauseBot userId _ => userId ≠ u
  | resumeBot userId _ => userId ≠ u
  | trade (.createBo _ apiKey ..) => ∀ bot ∈ db.bots.rows, bot.apiKey = apiKey → bot.userId ≠ some u
  | trade (.traceQueued k _) => ∀ bo ∈ db.orders.get k, db.userOf bo.botName ≠ some u
  | _ => False

instance (u : ℕ) (db : Database) : (a : ApiAction) → Decidable (a.OfOthers u db)
  | .createBot userId .. | .adjustBotBalance userId .. | .deleteBot userId _ | .renameBot userId ..
  | .pauseBot userId _
  | .resumeBot userId _ => inferInstanceAs (Decidable (userId ≠ u))
  | .trade (.createBo _ apiKey ..) =>
    inferInstanceAs (Decidable (∀ bot ∈ db.bots.rows, bot.apiKey = apiKey → bot.userId ≠ some u))
  | .trade (.traceQueued k _) =>
    inferInstanceAs (Decidable (∀ bo ∈ db.orders.get k, db.userOf bo.botName ≠ some u))
  | .trade (.fill _) | .trade (.lateFill ..) | .trade (.cancel _) | .trade (.exit ..)
  | .trade (.resolved _)
  | .trade (.settle ..) | .trade (.sweep ..) | .adminDeleteBot _ | .deleteBotTrades _
  | .adjustUserBalance .. =>
    inferInstanceAs (Decidable False)

/-- The row of the user, the user's bots and the orders of these. -/
structure SameOwn (u : ℕ) (db db' : Database) : Prop where
  user : db'.users.get u = db.users.get u
  bots : ∀ bot : Bot, bot.userId = some u → (bot ∈ db'.bots.rows ↔ bot ∈ db.bots.rows)
  orders : ∀ bo, db'.userOf bo.botName = some u ∧ bo ∈ db'.orders.rows ↔
    db.userOf bo.botName = some u ∧ bo ∈ db.orders.rows

theorem SameOwn.refl (u : ℕ) (db : Database) :
    SameOwn u db db := ⟨rfl, fun _ _ => Iff.rfl, fun _ => Iff.rfl⟩

theorem SameOwn.trans {u : ℕ} {db'' : Database} (h : SameOwn u db db') (h' : SameOwn u db' db'') :
    SameOwn u db db'' :=
  ⟨h'.user.trans h.user, fun bot hbot => (h'.bots bot hbot).trans (h.bots bot hbot),
    fun bo => (h'.orders bo).trans (h.orders bo)⟩

/-- Whoever manages a bot and is another user manages another user's bot. -/
theorem userId_of_others {u : ℕ} (hmanages : a.Manages bot) (hguard : a.OfOthers u db) :
    bot.userId ≠ some u := by
  have hne : ∀ {userId : ℕ}, bot.userId = some userId → userId ≠ u → bot.userId ≠ some u :=
    fun hown hu => hown.trans_ne fun e => hu (Option.some.inj e)
  cases a with
  | adjustBotBalance userId name payload => exact hne hmanages.2 hguard
  | deleteBot userId name => exact hne hmanages.2 hguard
  | renameBot userId name payload => exact hne hmanages.2 hguard
  | pauseBot userId name => exact hne hmanages.2 hguard
  | resumeBot userId name => exact hne hmanages.2 hguard
  | adminDeleteBot name => exact hguard.elim
  | deleteBotTrades name => exact hguard.elim
  | createBot userId payload apiKey => exact hmanages.elim
  | adjustUserBalance userId balance => exact hmanages.elim
  | trade t => exact hmanages.elim

/-- Another user's bot is written over. -/
theorem sameOwn_put {u : ℕ} (hget : db.bots.get bot.botName = some bot)
    (hother : bot.userId ≠ some u) (hbots : db'.bots = db.bots.put bot')
    (hname : bot'.botName = bot.botName) (huser : bot'.userId = bot.userId) :
    (∀ x : Bot, x.userId = some u → (x ∈ db'.bots.rows ↔ x ∈ db.bots.rows)) ∧
      ∀ name, db'.userOf name = db.userOf name := by
  refine ⟨fun x hx => ⟨fun hmem => ?_, fun hmem => ?_⟩, fun name => ?_⟩
  · rw [hbots] at hmem
    rcases Table.mem_put hmem with rfl | ⟨hold, -⟩
    · exact absurd (huser.symm.trans hx) hother
    · exact hold
  · rw [hbots]
    refine mem_put_other hmem fun e => hother ?_
    rw [← bot_of_name (Table.mem_of_get hget) hmem (e.symm.trans hname)]
    exact hx
  · unfold Database.userOf
    rw [hbots]
    by_cases hn : name = bot'.botName
    · have hget' : db.bots.get bot'.botName = some bot := hname ▸ hget
      rw [hn, Table.get_put_self hget', hget', Option.bind_some, Option.bind_some, huser]
    · rw [Table.get_put_ne hn]

theorem userOf_relabel {σ : Equiv.Perm BotName} (name : BotName) :
    (db.relabel σ).userOf (σ name) = db.userOf name := by
  unfold Database.userOf
  rw [get_relabel_bots]
  cases db.bots.get name <;> rfl

/-- What is the user's is not under the name of another user's bot. -/
theorem userOf_ne {u : ℕ} (hget : db.bots.get bot.botName = some bot) (hother : bot.userId ≠ some u)
    (h : db.userOf name = some u) : name ≠ bot.botName := by
  rintro rfl
  unfold Database.userOf at h
  rw [hget] at h
  exact hother h

/-- Another user's bot is renamed. -/
theorem sameOwn_renamed {u : ℕ} (hnames : db.NamesBots) (hget : db.bots.get bot.botName = some bot)
    (hother : bot.userId ≠ some u) (hnew : new ∉ db.bots.rows.map Bot.botName) :
    SameOwn u db (db.renamed bot.botName new hnew) := by
  have hkeptBot : ∀ x ∈ db.bots.rows, x.userId = some u → x.renamed bot.botName new = x := by
    intro x hx hu
    unfold Bot.renamed
    rw [newName_other fun e => hother (bot_of_name (Table.mem_of_get hget) hx e ▸ hu)]
  have hkeptOrder : ∀ bo : BinaryOption, db.userOf bo.botName = some u →
      bo.renamed bot.botName new = bo := by
    intro bo hu
    unfold BinaryOption.renamed
    rw [newName_other (userOf_ne hget hother hu)]
  have huserOf : ∀ bo ∈ db.orders.rows, (db.renamed bot.botName new hnew).userOf
      (bo.renamed bot.botName new).botName =
      db.userOf bo.botName := by
    intro bo hbo
    have hname : bo.botName ∈ db.mentioned := mem_mentioned.mpr (.inr (.inl ⟨bo, hbo, rfl⟩))
    rw [renamed_eq_relabel hnames hnew]
    show (db.relabel _).userOf (newName bot.botName new bo.botName) = _
    rw [newName_eq_swap hnames hnew hname, userOf_relabel]
  refine ⟨rfl, fun x hx => ⟨fun hmem => ?_, fun hmem => ?_⟩, fun bo => ⟨?_, ?_⟩⟩
  · obtain ⟨old, hold, rfl⟩ := List.mem_map.mp hmem
    rw [hkeptBot old hold hx]
    exact hold
  · exact List.mem_map.mpr ⟨x, hmem, hkeptBot x hmem hx⟩
  · rintro ⟨hu, hmem⟩
    obtain ⟨old, hold, rfl⟩ := List.mem_map.mp hmem
    rw [huserOf old hold] at hu
    rw [hkeptOrder old hu]
    exact ⟨hu, hold⟩
  · rintro ⟨hu, hmem⟩
    have hsame := hkeptOrder bo hu
    refine ⟨?_, List.mem_map.mpr ⟨bo, hmem, hsame⟩⟩
    rw [← hsame, huserOf bo hmem]
    exact hu

/-- **A step** of another user. -/
theorem sameOwn_step {u : ℕ} (h : ApiInv db) (hguard : a.OfOthers u db)
    (hstep : a.step db = some db') :
    SameOwn u db db' := by
  cases effect_of_step hstep with
  | inserts bot userId hnew hkey ha howner hdb =>
    obtain ⟨payload, rfl⟩ := ha
    subst hdb
    refine ⟨rfl, fun x hx => ⟨fun hmem => ?_, List.mem_append_left _⟩,
      fun bo => and_congr_left fun hbo => ?_⟩
    · rcases List.mem_append.mp hmem with hold | hlast
      · exact hold
      · rw [List.mem_singleton.mp hlast, howner] at hx
        exact absurd (Option.some.inj hx) hguard
    · have hname := h.names _ (mem_mentioned.mpr (.inr (.inl ⟨bo, hbo, rfl⟩)))
      have hne : bo.botName ≠ bot.botName := fun e => hnew (e ▸ hname)
      unfold Database.userOf
      rw [Table.get_insert_ne hne]
  | rewrites bot bot' hget hbots horders hrow hhistory hmanages husers =>
    have hother := userId_of_others hmanages hguard
    obtain ⟨hown, huserOf⟩ := sameOwn_put hget hother hbots hrow.botName hrow.userId
    exact ⟨husers u hother, hown, fun bo => by rw [huserOf, horders]⟩
  | renames bot new hget hnew hmanages hdb =>
    subst hdb
    exact sameOwn_renamed h.names hget (userId_of_others hmanages hguard) hnew
  | clears bot hget ha hbots horders hhistory =>
    subst ha
    exact hguard.elim
  | users users ha hdb =>
    obtain ⟨userId, balance, rfl⟩ := ha
    exact hguard.elim
  | trades t ha hdb =>
    subst ha hdb
    cases t with
    | createBo now apiKey p first second id =>
      rcases createBo_cases now apiKey p first second id rfl with
        hsame | ⟨placed, x, row, hnew, hmem, ⟨now', p', first', second', id', ht, -, -⟩, hname, hdb⟩
      · rw [hsame]
        exact .refl u db
      · cases ht
        have hother := hguard placed hmem rfl
        have hget : db.bots.get placed.botName = some placed := Table.get_of_mem hmem
        have hput : (db.setBot { placed with balance := x }).bots = db.bots.put { placed with
          balance := x } := rfl
        obtain ⟨hown, huserOf⟩ := sameOwn_put hget hother hput rfl rfl
        rw [hdb]
        refine ⟨rfl, hown, fun bo => ?_⟩
        have hu' := huserOf bo.botName
        refine Iff.trans (and_congr_left fun _ => by rw [← hu']; rfl)
          (and_congr_right fun hu => ⟨fun hbo => ?_, List.mem_append_left _⟩)
        rcases List.mem_append.mp hbo with hold | hlast
        · exact hold
        · rw [List.mem_singleton.mp hlast] at hu
          exact absurd hname (userOf_ne hget hother hu)
    | traceQueued k action =>
      show SameOwn u db (recordQueued db k action)
      unfold recordQueued
      cases hget : db.orders.get k with
      | none => exact .refl u db
      | some bo =>
        have hother := hguard bo hget
        refine ⟨rfl, fun _ _ => Iff.rfl, fun row => and_congr_right fun hu =>
          ⟨fun hrow => ?_, fun hrow => ?_⟩⟩
        · rcases Table.mem_put hrow with rfl | ⟨hold, -⟩
          · exact absurd hu hother
          · exact hold
        · refine List.mem_map.mpr ⟨row, hrow, if_neg fun hid => hother ?_⟩
          have hsame : row = bo :=
            List.inj_on_of_nodup_map db.orders.nodup hrow (Table.mem_of_get hget) hid
          rw [← hsame]
          exact hu
    | _ => exact hguard.elim

/-- What is left in the pool depends on what is the user's. -/
theorem available_own {u : ℕ} (h : SameOwn u db db') (hid : user.id = u) :
    db'.available user = db.available user := by
  subst hid
  have hnodup : ∀ db : Database, (db.activeBots user.id).Nodup :=
    fun db => (List.Nodup.of_map _ db.bots.nodup).filter _
  have hperm : (db'.activeBots user.id).Perm (db.activeBots user.id) := by
    refine (List.perm_ext_iff_of_nodup (hnodup db') (hnodup db)).mpr fun bot => ?_
    rw [mem_activeBots, mem_activeBots]
    exact and_congr_left fun hbot => h.bots bot hbot.1
  unfold Database.available Database.allocated
  rw [(hperm.map Bot.initialBalance).sum_eq]

/-- **Other users** do not reach a user's rows.  Whatever they create, adjust, delete, rename,
pause, resume and trade, and in whatever order, a user's row, bots, orders and pool stay exactly as
they were. -/
theorem other_users_isolated {u : ℕ} {db₀ : Database} (h₀ : ApiInv db₀)
    (hrun : Run ApiAction.step (fun db a => a.OfOthers u db) db₀ db) :
    SameOwn u db₀ db ∧ ∀ user : User, user.id = u → db.available user = db₀.available user := by
  have hsame : SameOwn u db₀ db := by
    induction hrun with
    | start => exact .refl u db₀
    | next hrun hguard hstep ih => exact ih.trans (sameOwn_step (apiInv_run h₀ hrun) hguard hstep)
  exact ⟨hsame, fun _ hid => available_own hsame hid⟩

/-- The second user makes a bot and renames the other one. -/
theorem other_users_isolated_first :
    ∃ db, Run ApiAction.step (fun db a => a.OfOthers 1 db) twoUsersDb db ∧
    SameOwn 1 twoUsersDb db ∧ db.available ⟨1, 100⟩ = twoUsersDb.available ⟨1, 100⟩ := by
  have hexec : (exec ApiAction.step (fun db a => a.OfOthers 1 db) twoUsersDb
      [.createBot 2 ⟨"gamma", 10⟩ "c", .renameBot 2 "beta" ⟨"delta", none⟩]).isSome := by
    decide +kernel
  obtain ⟨db, hdb⟩ := Option.isSome_iff_exists.mp hexec
  obtain ⟨hsame, hpool⟩ := other_users_isolated apiInv_twoUsersDb (run_of_exec hdb)
  exact ⟨db, run_of_exec hdb, hsame, hpool _ rfl⟩

end

end PolyArena

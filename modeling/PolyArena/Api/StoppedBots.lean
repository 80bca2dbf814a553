import PolyArena.Api.BotLifecycle

/-!
# Orders and bots over the runs of the API

1. `orders_kept`: no run loses an order, gives it to another bot or decides it again.
2. `stopped_frozen`: a bot that was paused or deleted stays as it is until somebody who may manage
   it asks for something about it.
3. `deleted_final`: a deleted bot is never back.
-/

namespace PolyArena

section

variable {db db' : Database} {userId : ℕ} {bot bot' : Bot} {name new : BotName} {a : ApiAction}

/-! ## The record of the orders -/

/-- Every order of `db` is in `db'`, as an order of the same bot. -/
def KeepsOrders (db db' : Database) : Prop := ∀ bo ∈ db.orders.rows, ∃ row ∈ db'.orders.rows,
  Continues row.botName bo row ∧ db'.keyOf row.botName = db.keyOf bo.botName

theorem KeepsOrders.refl (db : Database) : KeepsOrders db db :=
  fun bo hbo => ⟨bo, hbo, .refl bo, rfl⟩

theorem KeepsOrders.trans {db'' : Database} (h : KeepsOrders db db') (h' : KeepsOrders db' db'') :
    KeepsOrders db db'' := by
  intro bo hbo
  obtain ⟨row, hrow, hcont, hkey⟩ := h bo hbo
  obtain ⟨row', hrow', hcont', hkey'⟩ := h' row hrow
  exact ⟨row', hrow', hcont.trans hcont', hkey'.trans hkey⟩

/-- The rows of the orders are as they were. -/
theorem KeepsOrders.same (horders : ∀ bo ∈ db.orders.rows, bo ∈ db'.orders.rows)
    (hkeys : ∀ bo ∈ db.orders.rows, db'.keyOf bo.botName = db.keyOf bo.botName) :
    KeepsOrders db db' :=
  fun bo hbo => ⟨bo, horders bo hbo, .refl bo, hkeys bo hbo⟩

/-- A renamed order is the same order. -/
theorem continues_relabel (σ : Equiv.Perm BotName) (bo : BinaryOption) :
    Continues (bo.relabel σ).botName bo (bo.relabel σ) where
  id := rfl
  botName := rfl
  terms := rfl
  traces := List.prefix_rfl
  orderId := fun _ => rfl
  decided := fun _ => rfl

/-- **A step** that is not the admin's deletion of trades. -/
theorem keepsOrders_step (h : ApiInv db) (hguard : ¬ a.DeletesTrades)
    (hstep : a.step db = some db') :
    KeepsOrders db db' := by
  cases effect_of_step hstep with
  | inserts bot userId hnew hkey ha howner hdb =>
    subst hdb
    refine .same (fun _ hbo => hbo) fun bo hbo => ?_
    have hname := h.names _ (mem_mentioned.mpr (.inr (.inl ⟨bo, hbo, rfl⟩)))
    have hne : bo.botName ≠ bot.botName := fun e => hnew (e ▸ hname)
    unfold Database.keyOf
    rw [Table.get_insert_ne hne]
  | rewrites bot bot' hget hbots horders hrow hhistory hmanages husers =>
    obtain ⟨-, -, hkeyOf⟩ := put_keys hget hbots hrow.botName hrow.apiKey
    exact .same (fun bo hbo => horders ▸ hbo) fun bo _ => hkeyOf bo.botName
  | renames bot new hget hnew hmanages hdb =>
    rw [hdb, renamed_eq_relabel h.names hnew]
    exact fun bo hbo => ⟨_, List.mem_map_of_mem hbo, continues_relabel _ bo, keyOf_relabel _⟩
  | clears bot hget ha hbots horders hhistory =>
    subst ha
    exact absurd trivial hguard
  | users users ha hdb =>
    subst hdb
    exact .refl db
  | trades t ha hdb =>
    subst hdb
    intro bo hbo
    obtain ⟨row, hrow, hcont⟩ := orders_apply t hbo
    refine ⟨row, hrow, by rw [hcont.botName]; exact hcont, ?_⟩
    rw [hcont.botName, keyOf_apply]

/-- **The record of the orders.** In every run without the admin's deletion of trades, whatever is
renamed, paused or deleted in between, an order stays an order of the same bot, on the same terms
(its amount and its conditions are not among them) and under the same engine number; its trace only
grows, and once it is decided nothing else of it changes. -/
theorem orders_kept {db₀ : Database} (h₀ : ApiInv db₀)
    (hrun : Run ApiAction.step (fun _ a => ¬ a.DeletesTrades) db₀ db) : KeepsOrders db₀ db := by
  induction hrun with
  | start => exact .refl db₀
  | next hrun hguard hstep ih => exact ih.trans (keepsOrders_step (apiInv_run h₀ hrun) hguard hstep)

/-- The order is cancelled after its bot was renamed and before the bot is deleted. -/
theorem orders_kept_renamed : ∃ db, Run ApiAction.step
    (fun _ a => ¬ a.DeletesTrades) twoUsersDb db ∧
    (db.bots.get "gamma").isSome = true ∧ KeepsOrders twoUsersDb db := by
  have hexec : (exec ApiAction.step (fun _ a => ¬ a.DeletesTrades) twoUsersDb
      [.renameBot 1 "alpha" ⟨"gamma", none⟩, .trade (.cancel ⟨1, some 7, .ttlExpired, 0, 0⟩),
        .deleteBot 1 "gamma"]).any fun db => (db.bots.get "gamma").isSome := by
    decide +kernel
  obtain ⟨db, hdb, hgamma⟩ := (Option.any_eq_true _ _).mp hexec
  exact ⟨db, run_of_exec hdb, hgamma, orders_kept apiInv_twoUsersDb (run_of_exec hdb)⟩

/-! ## A bot that was stopped -/

/-- The decided order `bo`, maybe under a longer trace. -/
structure OnlyTraces (bo row : BinaryOption) : Prop where
  decided : bo.result ≠ .pending
  traces : bo.traces <+: row.traces
  row : row = { bo with traces := row.traces }

theorem OnlyTraces.result {bo row : BinaryOption} (h : OnlyTraces bo row) :
    row.result = bo.result := by
  rw [h.row]

theorem OnlyTraces.botName {bo row : BinaryOption} (h : OnlyTraces bo row) :
    row.botName = bo.botName := by
  rw [h.row]

/-- A decided order goes on. -/
theorem OnlyTraces.next {bo row row' : BinaryOption} (h : OnlyTraces bo row)
    (h' : Continues row.botName row row') :
    OnlyTraces bo row' where
  decided := h.decided
  traces := h.traces.trans h'.traces
  row := by
    have hrow := h'.decided (h.result ▸ h.decided)
    rw [h.row] at hrow
    exact hrow

/-- The bot `bot` is in `db` as it was in `db₁`, and so are its orders, all of them decided. -/
structure Frozen (bot : Bot) (db₁ db : Database) : Prop where
  present : bot ∈ db.bots.rows
  kept : ∀ bo ∈ db₁.orders.rows, bo.botName = bot.botName →
    ∃ row ∈ db.orders.rows, OnlyTraces bo row
  old : ∀ row ∈ db.orders.rows, row.botName = bot.botName →
    ∃ bo ∈ db₁.orders.rows, OnlyTraces bo row

theorem Frozen.start {db₁ : Database} (hbot : bot ∈ db₁.bots.rows)
    (hdecided : ∀ bo ∈ db₁.orders.rows, bo.botName = bot.botName → bo.result ≠ .pending) :
    Frozen bot db₁ db₁ :=
  ⟨hbot, fun bo hbo hname => ⟨bo, hbo, hdecided bo hbo hname, List.prefix_rfl, rfl⟩,
    fun bo hbo hname => ⟨bo, hbo, hdecided bo hbo hname, List.prefix_rfl, rfl⟩⟩

/-- The orders of the bot are those of `db`. -/
theorem Frozen.same {db₁ : Database} (h : Frozen bot db₁ db) (hbot : bot ∈ db'.bots.rows)
    (horders : ∀ bo, bo.botName = bot.botName → (bo ∈ db'.orders.rows ↔ bo ∈ db.orders.rows)) :
    Frozen bot db₁ db' where
  present := hbot
  kept := by
    intro bo hbo hname
    obtain ⟨row, hrow, honly⟩ := h.kept bo hbo hname
    exact ⟨row, (horders row (honly.botName.trans hname)).mpr hrow, honly⟩
  old := fun row hrow hname => h.old row ((horders row hname).mp hrow) hname

theorem mem_put_other (hbot : bot ∈ db.bots.rows) (hname : bot'.botName ≠ bot.botName) :
    bot ∈ (db.bots.put bot').rows :=
  List.mem_map.mpr ⟨bot, hbot, if_neg hname.symm⟩

theorem bot_of_name (hbot : bot ∈ db.bots.rows) (hbot' : bot' ∈ db.bots.rows)
    (hname : bot'.botName = bot.botName) :
    bot' = bot :=
  List.inj_on_of_nodup_map db.bots.nodup hbot' hbot hname

/-- A rename of another bot. -/
theorem newName_other {old : BotName} (hold : name ≠ old) :
    newName old new name = name := if_neg hold

/-- **A step** that is not the owner's or the admin's about the bot. -/
theorem frozen_step {db₁ : Database} (hstatus : bot.status ≠ .active) (h : Frozen bot db₁ db)
    (hguard : ¬ a.Manages bot) (hstep : a.step db = some db') : Frozen bot db₁ db' := by
  -- what a request about a bot is about is another bot
  have hother : ∀ {b : Bot}, db.bots.get b.botName = some b → a.Manages b →
      b.botName ≠ bot.botName := by
    intro b hget hmanages hname
    exact hguard (bot_of_name h.present (Table.mem_of_get hget) hname ▸ hmanages)
  cases effect_of_step hstep with
  | inserts b userId hnew hkey ha howner hdb =>
    subst hdb
    exact h.same (List.mem_append_left _ h.present) fun _ _ => Iff.rfl
  | rewrites b b' hget hbots horders hrow hhistory hmanages husers =>
    refine h.same ?_ fun _ _ => by rw [horders]
    rw [hbots]
    exact mem_put_other h.present (hrow.botName.trans_ne (hother hget hmanages))
  | renames b new hget hnew hmanages hdb =>
    subst hdb
    have hne := (hother hget hmanages).symm
    refine h.same (List.mem_map.mpr ⟨bot, h.present, ?_⟩) fun bo hname =>
      ⟨fun hmem => ?_, fun hmem => ?_⟩
    · unfold Bot.renamed
      rw [newName_other hne]
    · obtain ⟨old, hold, rfl⟩ := List.mem_map.mp hmem
      have hkept : old.botName ≠ b.botName := by
        intro e
        have hto : newName b.botName new old.botName = new := if_pos e
        refine hnew ?_
        rw [← hto, show newName b.botName new old.botName = bot.botName from hname]
        exact List.mem_map_of_mem h.present
      rw [show old.renamed b.botName new =
        old by unfold BinaryOption.renamed; rw [newName_other hkept]]
      exact hold
    · refine List.mem_map.mpr ⟨bo, hmem, ?_⟩
      unfold BinaryOption.renamed
      rw [newName_other (hname.trans_ne hne)]
  | clears b hget ha hbots horders hhistory =>
    have hne : b.botName ≠ bot.botName := hother hget (ha ▸ rfl)
    refine h.same ?_ fun bo hname => ?_
    · rw [hbots]
      exact mem_put_other h.present hne
    · rw [horders]
      refine ⟨List.mem_of_mem_filter, fun hmem => List.mem_filter.mpr ⟨hmem, ?_⟩⟩
      exact decide_eq_true (hname.trans_ne hne.symm)
  | users users ha hdb =>
    subst hdb
    exact ⟨h.present, h.kept, h.old⟩
  | trades t ha hdb =>
    subst hdb
    refine ⟨?_, fun bo hbo hname => ?_, fun row hrow hname => ?_⟩
    · obtain ⟨f, hf, hkeeps⟩ := bots_apply t db
      have hsame : f bot = bot := by
        refine Classical.byContradiction fun hmoved => ?_
        rcases (hkeeps bot h.present).2 hmoved with
          ⟨row, hrow, hname, hpending, -⟩ | ⟨now, p, first, second, id, -, -, hact⟩
        · obtain ⟨bo, -, honly⟩ := h.old row hrow hname
          exact honly.decided (honly.result.symm.trans hpending)
        · exact hstatus hact
      rw [hf]
      exact List.mem_map.mpr ⟨bot, h.present, hsame⟩
    · obtain ⟨row, hrow, honly⟩ := h.kept bo hbo hname
      obtain ⟨row', hrow', hcont⟩ := orders_apply t hrow
      exact ⟨row', hrow', honly.next hcont⟩
    · rcases order_origin t hrow with ⟨old, hold, hcont⟩ |
        ⟨b, hb, hb', now, p, first, second, id, -, -, hact⟩
      · obtain ⟨bo, hbo, honly⟩ := h.old old hold (hcont.botName.symm.trans hname)
        exact ⟨bo, hbo, honly.next hcont⟩
      · obtain rfl := bot_of_name h.present hb (hb'.symm.trans hname)
        exact absurd hact hstatus

theorem decided_of_count {name : BotName} (h : db.pendingCount name = 0) :
    ∀ bo ∈ db.orders.rows, bo.botName = name → bo.result ≠ .pending := by
  intro bo hbo hname hpending
  have hmem : bo ∈ db.orders.rows.filter fun bo => bo.botName = name ∧ bo.result = .pending :=
    List.mem_filter.mpr ⟨hbo, decide_eq_true ⟨hname, hpending⟩⟩
  rw [List.length_eq_zero_iff.mp h] at hmem
  cases hmem

/-- The row that a request wrote. -/
theorem written_bot {old : Bot} (hput : (db.bots.put bot').get name = some bot)
    (hget : db.bots.get name = some old) (hname : bot'.botName = old.botName) : bot' = bot := by
  obtain rfl : bot'.botName = name := hname.trans (Table.key_of_get hget)
  exact Option.some.inj ((Table.get_put_self hget).symm.trans hput)

/-- **A stopped bot.** After its owner has paused or deleted a bot, and until the owner or the admin
asks for something about it, no request of anybody else and no fill, exit, settlement or sweep moves
its balance, its status or its orders. -/
theorem stopped_frozen {db₀ db₁ : Database}
    (hstop : db₀.pauseBot userId name = .ok db₁ ∨ db₀.deleteBot userId name = .ok db₁)
    (hget : db₁.bots.get name = some bot)
    (hrun : Run ApiAction.step (fun _ a => ¬ a.Manages bot) db₁ db) :
    Frozen bot db₁ db := by
  have hname : bot.botName = name := Table.key_of_get hget
  have hidle : bot.status ≠ .active ∧
      ∀ bo ∈ db₁.orders.rows, bo.botName = bot.botName → bo.result ≠ .pending := by
    rw [hname]
    rcases hstop with hpause | hdelete
    · obtain ⟨old, hold, -, -, hcount, rfl⟩ := pauseBot_ok hpause
      obtain rfl := written_bot hget hold rfl
      exact ⟨BotStatus.noConfusion, decided_of_count hcount⟩
    · obtain ⟨user, old, -, hold, -, -, hcount, hbots, -, horders⟩ := deleteBot_ok hdelete
      rw [hbots] at hget
      obtain rfl := written_bot hget hold rfl
      refine ⟨BotStatus.noConfusion, ?_⟩
      rw [horders]
      exact decided_of_count hcount
  exact hrun.invariant _ (.start (Table.mem_of_get hget) hidle.2)
    fun _ _ _ h hguard hstep => frozen_step hidle.1 h hguard hstep

def pausedBeta : Bot := { betaBot with status := .paused }

/-- While the second user's bot is paused, the first user's order is cancelled and its bot is
deleted. -/
theorem stopped_frozen_beta : ∃ db, Run ApiAction.step (fun _ a => ¬ a.Manages pausedBeta)
    (twoUsersDb.setBot pausedBeta) db ∧ Frozen pausedBeta (twoUsersDb.setBot pausedBeta) db := by
  have hexec : (exec ApiAction.step (fun _ a => ¬ a.Manages pausedBeta)
      (twoUsersDb.setBot pausedBeta)
      [.trade (.cancel ⟨1, some 7, .ttlExpired, 0, 0⟩), .deleteBot 1 "alpha"]).isSome := by
    decide +kernel
  obtain ⟨db, hdb⟩ := Option.isSome_iff_exists.mp hexec
  have hpause : twoUsersDb.pauseBot 2 "beta" = .ok (twoUsersDb.setBot pausedBeta) := rfl
  exact ⟨db, run_of_exec hdb, stopped_frozen (.inl hpause) rfl (run_of_exec hdb)⟩

/-! ## A deleted bot -/

/-- The bot with the key is deleted and has no pending orders. -/
def Gone (key : String) (db : Database) : Prop :=
  ∃ bot ∈ db.bots.rows, bot.apiKey = key ∧ bot.isActive = false ∧
  bot.status = .deleted ∧ ∀ bo ∈ db.orders.rows, bo.botName = bot.botName → bo.result ≠ .pending

/-- A request that writes over a bot leaves a deleted one deleted. -/
theorem gone_put {key : String} (h : Gone key db) (hget : db.bots.get bot.botName = some bot)
    (hbots : db'.bots = db.bots.put bot') (hrow : Rewrites bot bot')
    (horders : ∀ row ∈ db'.orders.rows, row ∈ db.orders.rows) : Gone key db' := by
  obtain ⟨gone, hgone, hkey, hoff, hstatus, hdecided⟩ := h
  by_cases hname : bot.botName = gone.botName
  · obtain rfl := bot_of_name hgone (Table.mem_of_get hget) hname
    have hput : db.bots.get bot'.botName = some bot := hrow.botName ▸ hget
    refine ⟨bot', ?_, hrow.apiKey.trans hkey, (hrow.deleted hoff hstatus).1,
      (hrow.deleted hoff hstatus).2,
      fun bo hbo hn => hdecided bo (horders bo hbo) (hn.trans hrow.botName)⟩
    rw [hbots]
    exact Table.mem_put_self hput
  · refine ⟨gone, ?_, hkey, hoff, hstatus, fun bo hbo => hdecided bo (horders bo hbo)⟩
    rw [hbots]
    exact mem_put_other hgone (hrow.botName.trans_ne hname)

theorem gone_step {key : String} (hinv : ApiInv db) (h : Gone key db)
    (hstep : a.step db = some db') :
    Gone key db' := by
  cases effect_of_step hstep with
  | inserts b userId hnew hkey ha howner hdb =>
    subst hdb
    obtain ⟨gone, hgone, hrest⟩ := h
    exact ⟨gone, List.mem_append_left _ hgone, hrest⟩
  | rewrites b b' hget hbots horders hrow hhistory hmanages husers =>
    exact gone_put h hget hbots hrow fun row hmem => horders ▸ hmem
  | renames b new hget hnew hmanages hdb =>
    obtain ⟨gone, hgone, hkey, hoff, hstatus, hdecided⟩ := h
    rw [hdb, renamed_eq_relabel hinv.names hnew]
    refine ⟨gone.relabel _, List.mem_map_of_mem hgone, hkey, hoff, hstatus,
      fun row hrow hname => ?_⟩
    obtain ⟨bo, hbo, rfl⟩ := List.mem_map.mp hrow
    exact hdecided bo hbo (Equiv.injective _ hname)
  | clears b hget ha hbots horders hhistory =>
    refine gone_put h hget hbots ⟨rfl, rfl, rfl, fun hoff hstatus => ⟨hoff, hstatus⟩⟩
      fun row hmem => ?_
    rw [horders] at hmem
    exact List.mem_of_mem_filter hmem
  | users users ha hdb =>
    subst hdb
    exact h
  | trades t ha hdb =>
    subst hdb
    obtain ⟨gone, hgone, hkey, hoff, hstatus, hdecided⟩ := h
    obtain ⟨f, hf, hkeeps⟩ := bots_apply t db
    have hidle : ¬ gone.Places t := by
      rintro ⟨now, p, first, second, id, -, hactive, -⟩
      rw [hoff] at hactive
      cases hactive
    have hsame : f gone = gone := by
      refine Classical.byContradiction fun hmoved => ?_
      rcases (hkeeps gone hgone).2 hmoved with ⟨row, hrow, hname, hpending, -⟩ | hplaces
      · exact hdecided row hrow hname hpending
      · exact hidle hplaces
    refine ⟨gone, hf ▸ List.mem_map.mpr ⟨gone, hgone, hsame⟩, hkey, hoff, hstatus,
      fun row hrow hname => ?_⟩
    rcases order_origin t hrow with ⟨old, hold, hcont⟩ | ⟨b, hb, hb', hplaces⟩
    · have hdec := hdecided old hold (hcont.botName.symm.trans hname)
      rw [hcont.result hdec]
      exact hdec
    · obtain rfl := bot_of_name hgone hb (hb'.symm.trans hname)
      exact absurd hplaces hidle

/-- **Deletion is final.** After its owner has deleted a bot, no run of requests of anybody, admin
included, and of transactions brings it back: it is never active again and never has a pending
order. -/
theorem deleted_final {db₀ db₁ : Database} (h₀ : ApiInv db₀)
    (hdelete : db₀.deleteBot userId name = .ok db₁) (hget : db₁.bots.get name = some bot)
    (hrun : Run ApiAction.step (fun _ _ => True) db₁ db) :
    Gone bot.apiKey db := by
  obtain ⟨user, old, -, hold, -, -, hcount, hbots, -, horders⟩ := deleteBot_ok hdelete
  have hname : bot.botName = name := Table.key_of_get hget
  have hmem := Table.mem_of_get hget
  have hinv : ApiInv db₁ := apiInv_step (a := .deleteBot userId name) h₀
    (by rw [ApiAction.step, hdelete]; rfl)
  rw [hbots] at hget
  obtain rfl := written_bot hget hold rfl
  have hgone : Gone old.apiKey db₁ := by
    refine ⟨_, hmem, rfl, rfl, rfl, ?_⟩
    rw [hname, horders]
    exact decided_of_count hcount
  have hboth : ApiInv db ∧ Gone old.apiKey db :=
    hrun.invariant (fun db => ApiInv db ∧ Gone old.apiKey db) ⟨hinv, hgone⟩ fun _ _ _ h _ hstep =>
      ⟨apiInv_step h.1 hstep, gone_step h.1 h.2 hstep⟩
  exact hboth.2

/-- The second user's bot is deleted; then the admin deletes its trades, and it is renamed. -/
theorem deleted_final_beta : ∃ db₁ bot db, twoUsersDb.deleteBot 2 "beta" = .ok db₁ ∧
    db₁.bots.get "beta" = some bot ∧ Run ApiAction.step (fun _ _ => True) db₁ db ∧
      Gone bot.apiKey db := by
  have hexec : ((twoUsersDb.deleteBot 2 "beta").toOption.bind fun db₁ =>
    (db₁.bots.get "beta").bind fun _ =>
      exec ApiAction.step (fun _ _ => True) db₁
        [.deleteBotTrades "beta", .renameBot 2 "beta" ⟨"delta", some "b"⟩]).isSome := by
    decide +kernel
  obtain ⟨db, hdb⟩ := Option.isSome_iff_exists.mp hexec
  obtain ⟨db₁, hdelete, hrest⟩ := Option.bind_eq_some_iff.mp hdb
  obtain ⟨bot, hbot, hrun⟩ := Option.bind_eq_some_iff.mp hrest
  exact ⟨db₁, bot, db, toOption_ok hdelete, hbot, run_of_exec hrun,
    deleted_final apiInv_twoUsersDb (toOption_ok hdelete) hbot (run_of_exec hrun)⟩

end

end PolyArena

import PolyArena.Continued
import PolyArena.Lib.Binary64
import PolyArena.Lib.RelyGuarantee
import Mathlib.Data.List.Sort
import Mathlib.Data.List.TakeWhile

/-!
# Achievements

`services/achievements.py` and `services/achievement_seeder.py`.  After an order is settled
`on_trade_resolved` loads it with its bot, what the bot has earned and the definitions, and runs the
registered checkers one after the other, each with a query of its own; what they award is committed
together.  Other workers settle, fill and award between any two of these queries; each transaction
on orders is one step here.

1. `onTradeResolved` is the call, query by query.
2. `Backed` is what an award says of the orders of its bot, and of its balance in some store of the
   run; later transactions keep it (`Backed.later`).
3. `awards_backed`: however the calls and the transactions interleave, every award is backed and
   nothing is awarded twice.
4. `anti_midas_has_incense`: who has the award for fifteen losses in a row has the one for ten, as
   long as no call and no seeding is disturbed; `incense_missed` is a run with a settlement between
   the two checks.
-/

namespace PolyArena

open Rounding

/-! ## Rows -/

/-- The slugs of the registered checkers. -/
inductive Slug
  | peakBuyer
  | blindSniper
  | pinkSlipSeeker
  | theMartyr
  | goldenIncense
  | antiMidas
  | immortalSniper
  | dustCollector
  | pennyPincher
  | phoenixDown
  deriving DecidableEq, Repr

/-- What a checker returns on a match. -/
inductive AwardMetadata
  | price (avgPrice : ℚ) (tradeId : ℕ)
  | stake (amount initialBalance ratio : ℚ)
  | finalBalance (balance : ℚ) (tradeId : ℕ)
  | lossStreak (n : ℕ)
  | winStreak (n : ℕ) (latestAvgPrice : Option ℚ)
  | dustTrades (n : ℕ)
  | consecutiveMinStake (n : ℕ)
  | recovery (minBalance currentBalance initialBalance : ℚ)
  deriving DecidableEq, Repr

structure BotAchievement where
  botName : BotName
  slug : Slug
  metadata : AwardMetadata
  deriving DecidableEq, Repr

/-- The columns of `uq_bot_achievement`. -/
def BotAchievement.key (a : BotAchievement) : BotName × Slug := (a.botName, a.slug)

/-! ## Queries -/

namespace Database

def settledOf (db : Database) (name : BotName) : List BinaryOption :=
  db.orders.rows.filter fun bo => bo.botName = name ∧ bo.isSettled

/-- `_get_recent_results`. -/
def recentResults (db : Database) (name : BotName) (limit : ℕ := 50) : List BinaryOption :=
  ((db.settledOf name).insertionSort fun a b => b.id ≤ a.id).take limit

/-- How many of the newest settled orders have a property, up to the first that has not. -/
def recentStreak (db : Database) (name : BotName) (p : BinaryOption → Bool) : ℕ :=
  ((db.recentResults name).takeWhile p).length

/-- `_get_consecutive_streak`. -/
def consecutiveStreak (db : Database) (name : BotName) (result : BOResult) : ℕ :=
  db.recentStreak name fun bo => bo.result = result

/-- How many settled orders of the bot have a property. -/
def settledCount (db : Database) (name : BotName) (p : BinaryOption → Bool) : ℕ :=
  ((db.settledOf name).filter p).length

end Database

/-! ## Checkers -/

/-- `_MIN_STAKE`. -/
def MIN_STAKE : ℚ := 1

section Checkers

variable (bo : BinaryOption) (bot : Bot) (db : Database)

def checkPeakBuyer : Option AwardMetadata :=
  if bo.result ≠ .loss then none
  else
    match bo.avgPrice with
    | some avg => if 98 / 100 < avg then some (.price avg bo.id) else none
    | none => none

def checkBlindSniper : Option AwardMetadata :=
  if bo.result ≠ .win then none
  else
    match bo.avgPrice with
    | some avg => if avg < 10 / 100 then some (.price avg bo.id) else none
    | none => none

/-- `bo.amount / bot.initial_balance`, on doubles. -/
def stakeRatio : ℚ := fl (fl bo.amount / fl bot.initialBalance)

def checkPinkSlipSeeker : Option AwardMetadata :=
  if 0 < bot.initialBalance then
    let ratio := stakeRatio bo bot
    if fl (90 / 100) < ratio
    then some (.stake bo.amount bot.initialBalance (roundTo 4 ratio)) else none
  else none

def checkTheMartyr : Option AwardMetadata :=
  if bo.result ≠ .loss then none
  else if bot.balance ≤ 0 then some (.finalBalance bot.balance bo.id) else none

/-- `_check_golden_incense` and `_check_anti_midas`. -/
def checkLossStreak (least : ℕ) : Option AwardMetadata :=
  if bo.result ≠ .loss then none
  else
    let streak := db.consecutiveStreak bo.botName .loss
    if least ≤ streak then some (.lossStreak streak) else none

def checkGoldenIncense : Option AwardMetadata := checkLossStreak bo db 10

def checkAntiMidas : Option AwardMetadata := checkLossStreak bo db 15

/-- A win below `0.15`. -/
def BinaryOption.isCheapWin (bo : BinaryOption) : Bool :=
  bo.result = .win ∧ ∃ avg ∈ bo.avgPrice, avg < 15 / 100

def checkImmortalSniper : Option AwardMetadata :=
  if bo.result ≠ .win then none
  else
    let streak := db.recentStreak bo.botName BinaryOption.isCheapWin
    if 5 ≤ streak then some (.winStreak streak bo.avgPrice) else none

def checkDustCollector : Option AwardMetadata :=
  if MIN_STAKE ≤ bo.amount then none
  else
    let count := db.settledCount bo.botName fun t => t.amount < MIN_STAKE
    if 100 ≤ count then some (.dustTrades count) else none

def checkPennyPincher : Option AwardMetadata :=
  let streak := db.recentStreak bo.botName fun t => t.amount ≤ MIN_STAKE
  if 50 ≤ streak then some (.consecutiveMinStake streak) else none

def checkPhoenixDown : Option AwardMetadata :=
  if bot.balance < bot.initialBalance then none
  else
    match ((db.balanceHistory.filter fun h => h.botName = bot.botName).map
        BalanceHistory.balance).min? with
    | some least =>
      if least < 1 then some (.recovery least bot.balance bot.initialBalance) else none
    | none => none

def Slug.check : Slug → Option AwardMetadata
  | .peakBuyer => checkPeakBuyer bo
  | .blindSniper => checkBlindSniper bo
  | .pinkSlipSeeker => checkPinkSlipSeeker bo bot
  | .theMartyr => checkTheMartyr bo bot
  | .goldenIncense => checkGoldenIncense bo db
  | .antiMidas => checkAntiMidas bo db
  | .immortalSniper => checkImmortalSniper bo db
  | .dustCollector => checkDustCollector bo db
  | .pennyPincher => checkPennyPincher bo db
  | .phoenixDown => checkPhoenixDown bot db

end Checkers

/-- The keys of `_CHECKERS`, in the order of registration. -/
def CHECKERS : List Slug :=
  [.peakBuyer, .blindSniper, .pinkSlipSeeker, .theMartyr, .goldenIncense, .antiMidas,
    .immortalSniper, .dustCollector, .pennyPincher, .phoenixDown]

/-- The slugs of `DEFINITIONS`. -/
def DEFINITIONS : List Slug :=
  [.peakBuyer, .blindSniper, .pinkSlipSeeker, .theMartyr, .goldenIncense, .antiMidas,
    .immortalSniper, .dustCollector, .pennyPincher, .phoenixDown]

/-! ## The call -/

/-- The database with the two tables of achievements. -/
structure Arena where
  db : Database
  definitions : List Slug := []
  awards : List BotAchievement := []

namespace Arena

/-- The slugs that the bot has earned. -/
def earned (s : Arena) (bot : Bot) : List Slug :=
  (s.awards.filter fun a => a.botName = bot.botName).map BotAchievement.slug

/-- The commit of new awards: the unique constraint refuses all of them or none. -/
def award (s : Arena) (added : List BotAchievement) : Arena :=
  if ((s.awards ++ added).map BotAchievement.key).Nodup
  then { s with awards := s.awards ++ added } else s

/-- The commit of new definitions, whose slugs are unique. -/
def define (s : Arena) (added : List Slug) : Arena :=
  if (s.definitions ++ added).Nodup then { s with definitions := s.definitions ++ added } else s

end Arena

/-- The loop over `_CHECKERS`. -/
def checkAll (bo : BinaryOption) (bot : Bot) (earned definitions : List Slug) :
    List Slug → List BotAchievement → Txn Arena
  | [], added => .commit fun s => s.award added
  | slug :: rest, added =>
    if slug ∈ earned ∨ slug ∉ definitions then checkAll bo bot earned definitions rest added
    else .read (fun s => slug.check bo bot s.db) fun found =>
      checkAll bo bot earned definitions rest
        (added ++ (found.map (BotAchievement.mk bot.botName slug)).toList)

/-- `on_trade_resolved`, for the order with an id. -/
def onTradeResolved (boId : ℕ) : Txn Arena :=
  .read (fun s => s.db.orders.get boId) fun
    | none => .commit id
    | some bo =>
      if bo.isSettled then
        .read (fun s => s.db.bots.get bo.botName) fun
          | none => .commit id
          | some bot => .read (fun s => s.earned bot) fun earned =>
            .read (fun s => s.definitions) fun definitions =>
              checkAll bo bot earned definitions CHECKERS []
      else .commit id

/-- `seed_achievements`. -/
def seedAchievements : Txn Arena :=
  .read (fun s => s.definitions) fun existing =>
    .commit fun s => s.define (DEFINITIONS.filter (· ∉ existing))

/-- What the workers run. -/
inductive ArenaProgram
  | trade (t : BalanceTransaction)
  | seed
  | resolved (boId : ℕ)

/-- A transaction on orders reads and commits in one step. -/
def ArenaProgram.txn : ArenaProgram → Txn Arena
  | .trade t => .commit fun s => { s with db := t.apply s.db }
  | .seed => seedAchievements
  | .resolved boId => onTradeResolved boId

/-! ## What stands behind an award -/

/-- What an award says of the rows of its bot, and of the balance that the bot had in one of the
stores `past`. -/
inductive Backed (past : Set Arena) (db : Database) : BotAchievement → Prop
  | peakBuyer (bo : BinaryOption) (avg : ℚ) (hbo : bo ∈ db.orders.rows) (hloss : bo.result = .loss)
      (havg : bo.avgPrice = some avg) (hhigh : 98 / 100 < avg) :
      Backed past db ⟨bo.botName, .peakBuyer, .price avg bo.id⟩
  | blindSniper (bo : BinaryOption) (avg : ℚ) (hbo : bo ∈ db.orders.rows) (hwin : bo.result = .win)
      (havg : bo.avgPrice = some avg) (hlow : avg < 10 / 100) :
      Backed past db ⟨bo.botName, .blindSniper, .price avg bo.id⟩
  | pinkSlipSeeker (bo : BinaryOption) (bot : Bot) (hbo : bo ∈ db.orders.rows)
      (hsettled : bo.isSettled = true) (hbot : bot ∈ db.bots.rows)
      (hname : bo.botName = bot.botName) (hinitial : 0 < bot.initialBalance)
      (hratio : fl (90 / 100) < stakeRatio bo bot) : Backed past db ⟨bo.botName, .pinkSlipSeeker,
        .stake bo.amount bot.initialBalance (roundTo 4 (stakeRatio bo bot))⟩
  | theMartyr (bo : BinaryOption) (s : Arena) (bot : Bot) (hbo : bo ∈ db.orders.rows)
      (hloss : bo.result = .loss) (hpast : s ∈ past) (hbot : bot ∈ s.db.bots.rows)
      (hname : bo.botName = bot.botName) (hbroke : bot.balance ≤ 0) :
      Backed past db ⟨bo.botName, .theMartyr, .finalBalance bot.balance bo.id⟩
  | goldenIncense (name : BotName) (n : ℕ) (hleast : 10 ≤ n)
      (hcount : n ≤ db.settledCount name fun bo => bo.result = .loss) :
      Backed past db ⟨name, .goldenIncense, .lossStreak n⟩
  | antiMidas (name : BotName) (n : ℕ) (hleast : 15 ≤ n)
      (hcount : n ≤ db.settledCount name fun bo => bo.result = .loss) :
      Backed past db ⟨name, .antiMidas, .lossStreak n⟩
  | immortalSniper (bo : BinaryOption) (n : ℕ) (hbo : bo ∈ db.orders.rows) (hwin : bo.result = .win)
      (hleast : 5 ≤ n) (hcount : n ≤ db.settledCount bo.botName BinaryOption.isCheapWin) :
      Backed past db ⟨bo.botName, .immortalSniper, .winStreak n bo.avgPrice⟩
  | dustCollector (name : BotName) (n : ℕ) (hleast : 100 ≤ n)
      (hcount : n ≤ db.settledCount name fun bo => bo.amount < MIN_STAKE) :
      Backed past db ⟨name, .dustCollector, .dustTrades n⟩
  | pennyPincher (name : BotName) (n : ℕ) (hleast : 50 ≤ n)
      (hcount : n ≤ db.settledCount name fun bo => bo.amount ≤ MIN_STAKE) :
      Backed past db ⟨name, .pennyPincher, .consecutiveMinStake n⟩
  | phoenixDown (s : Arena) (bot : Bot) (low : BalanceHistory) (hpast : s ∈ past)
      (hbot : bot ∈ s.db.bots.rows) (hlow : low ∈ db.balanceHistory)
      (hname : low.botName = bot.botName) (hleast : low.balance < 1)
      (hback : bot.initialBalance ≤ bot.balance) :
      Backed past db ⟨bot.botName, .phoenixDown,
        .recovery low.balance bot.balance bot.initialBalance⟩

/-- The database later on. -/
structure Database.Grows (db db' : Database) : Prop where
  orders : ∀ bo ∈ db.orders.rows, ∃ row ∈ db'.orders.rows, Continues bo.botName bo row
  bots : ∀ bot ∈ db.bots.rows, ∃ bot' ∈ db'.bots.rows, bot.Trades bot'
  history : db.balanceHistory <+: db'.balanceHistory

/-- The order and the bot that a call has loaded are still there; the bot was loaded from one of the
stores `past`. -/
structure Resolving (past : Set Arena) (db : Database) (bo : BinaryOption) (bot : Bot) : Prop where
  settled : bo.isSettled = true
  name : bo.botName = bot.botName
  order : ∃ traces, { bo with traces := traces } ∈ db.orders.rows
  loaded : ∃ s ∈ past, bot ∈ s.db.bots.rows
  bot : ∃ bot' ∈ db.bots.rows, bot.Trades bot'

section

variable {db db' db'' : Database} {bo row : BinaryOption} {bot : Bot} {name : BotName}
  {p : BinaryOption → Bool} {a : BotAchievement} {found : AwardMetadata} {past past' : Set Arena}

theorem Bot.Trades.trans {bot' bot'' : Bot} (h : bot.Trades bot') (h' : bot'.Trades bot'') :
    bot.Trades bot'' := by
  obtain ⟨x, s, rfl⟩ := h
  obtain ⟨y, t, rfl⟩ := h'
  exact ⟨y, t, rfl⟩

theorem Database.Grows.refl (db : Database) : db.Grows db :=
  ⟨fun bo hbo => ⟨bo, hbo, .refl bo⟩, fun bot hbot => ⟨bot, hbot, .refl bot⟩, List.prefix_rfl⟩

theorem Database.Grows.trans (h : db.Grows db') (h' : db'.Grows db'') : db.Grows db'' := by
  refine ⟨fun bo hbo => ?_, fun bot hbot => ?_, h.history.trans h'.history⟩
  · obtain ⟨row, hrow, hcont⟩ := h.orders bo hbo
    obtain ⟨row', hrow', hcont'⟩ := h'.orders row hrow
    exact ⟨row', hrow', hcont.trans (hcont.botName ▸ hcont')⟩
  · obtain ⟨mid, hmid, htrades⟩ := h.bots bot hbot
    obtain ⟨bot', hbot', htrades'⟩ := h'.bots mid hmid
    exact ⟨bot', hbot', htrades.trans htrades'⟩

theorem grows_apply (t : BalanceTransaction) (db : Database) : db.Grows (t.apply db) := by
  obtain ⟨f, hrows, hf⟩ := bots_apply t db
  refine ⟨fun bo hbo => orders_apply t hbo, fun bot hbot => ⟨f bot, ?_, (hf bot hbot).1⟩,
    history_apply t db⟩
  rw [hrows]
  exact List.mem_map_of_mem hbot

/-- A settled order is only traced. -/
theorem Continues.settled (h : Continues bo.botName bo row) (hs : bo.isSettled = true) :
    row = { bo with traces := row.traces } := by
  refine h.decided fun hpending => ?_
  unfold BinaryOption.isSettled at hs
  simp [hpending] at hs

theorem mem_settledOf : bo ∈ db.settledOf name ↔
    bo ∈ db.orders.rows ∧ bo.botName = name ∧ bo.isSettled = true := by
  unfold Database.settledOf
  rw [List.mem_filter, decide_eq_true_eq]

/-- Settled orders do not get fewer. -/
theorem settledCount_mono (h : db.Grows db')
    (hp : ∀ bo traces, p { bo with traces := traces } = p bo) :
    db.settledCount name p ≤ db'.settledCount name p := by
  have hnodup : (((db.settledOf name).filter p).map BinaryOption.id).Nodup :=
    db.orders.nodup.sublist ((List.filter_sublist.trans List.filter_sublist).map _)
  have hsub : ((db.settledOf name).filter p).map BinaryOption.id ⊆
      ((db'.settledOf name).filter p).map BinaryOption.id := by
    intro k hk
    obtain ⟨bo, hbo, rfl⟩ := List.mem_map.mp hk
    obtain ⟨hmem, hpbo⟩ := List.mem_filter.mp hbo
    obtain ⟨hrow, hname, hs⟩ := mem_settledOf.mp hmem
    obtain ⟨row, hrow', hcont⟩ := h.orders bo hrow
    have heq := hcont.settled hs
    refine List.mem_map.mpr ⟨row,
      List.mem_filter.mpr ⟨mem_settledOf.mpr ⟨hrow', ?_, ?_⟩, ?_⟩, hcont.id⟩
    · rw [hcont.botName, hname]
    · rw [heq]
      exact hs
    · rw [heq, hp]
      exact hpbo
  have hlength := (hnodup.subperm hsub).length_le
  rwa [List.length_map, List.length_map] at hlength

/-- A streak is not longer than the settled orders of its kind. -/
theorem recentStreak_le : db.recentStreak name p ≤ db.settledCount name p := by
  unfold Database.recentStreak Database.settledCount Database.recentResults
  set sorted := (db.settledOf name).insertionSort fun a b => b.id ≤ a.id with hsorted
  have hall : ((sorted.take 50).takeWhile p).filter p = (sorted.take 50).takeWhile p :=
    List.filter_eq_self.mpr fun bo hbo => List.mem_takeWhile_imp hbo
  have hsub : ((sorted.take 50).takeWhile p).Sublist sorted :=
    (List.takeWhile_sublist p).trans (List.take_sublist 50 sorted)
  calc ((sorted.take 50).takeWhile p).length =
      (((sorted.take 50).takeWhile p).filter p).length := by rw [hall]
    _ ≤ (sorted.filter p).length := (hsub.filter p).length_le
    _ = ((db.settledOf name).filter p).length := ((List.perm_insertionSort _ _).filter p).length_eq

/-- A settled order is still there, with more traces. -/
theorem Database.Grows.settled {traces : List TraceAction} (h : db.Grows db')
    (hbo : { bo with traces := traces } ∈ db.orders.rows) (hs : bo.isSettled = true) :
    ∃ traces, { bo with traces := traces } ∈ db'.orders.rows := by
  obtain ⟨row, hrow, hcont⟩ := h.orders _ hbo
  have heq : row = { bo with traces := row.traces } := hcont.settled hs
  exact ⟨row.traces, heq ▸ hrow⟩

/-- **An award stays backed.** -/
theorem Backed.later (h : Backed past db a) (hpast : past ⊆ past') (hgrows : db.Grows db') :
    Backed past' db' a := by
  have hcounts : ∀ {name : BotName} {p : BinaryOption → Bool} {n : ℕ}, n ≤ db.settledCount name p →
      (∀ bo traces, p { bo with traces := traces } = p bo) → n ≤ db'.settledCount name p :=
    fun hn hp => hn.trans (settledCount_mono hgrows hp)
  cases h with
  | peakBuyer bo avg hbo hloss havg hhigh =>
    obtain ⟨traces, hrow⟩ := hgrows.settled hbo (isSettled_of_loss hloss)
    exact .peakBuyer { bo with traces := traces } avg hrow hloss havg hhigh
  | blindSniper bo avg hbo hwin havg hlow =>
    obtain ⟨traces, hrow⟩ := hgrows.settled hbo (isSettled_of_win hwin)
    exact .blindSniper { bo with traces := traces } avg hrow hwin havg hlow
  | pinkSlipSeeker bo bot hbo hsettled hbot hname hinitial hratio =>
    obtain ⟨traces, hrow⟩ := hgrows.settled hbo hsettled
    obtain ⟨bot', hbot', x, s, rfl⟩ := hgrows.bots bot hbot
    exact .pinkSlipSeeker { bo with traces := traces } { bot with balance := x, status := s }
      hrow hsettled hbot' hname hinitial hratio
  | theMartyr bo s bot hbo hloss hs hbot hname hbroke =>
    obtain ⟨traces, hrow⟩ := hgrows.settled hbo (isSettled_of_loss hloss)
    exact .theMartyr { bo with traces := traces } s bot hrow hloss (hpast hs) hbot hname hbroke
  | goldenIncense name n hleast hcount =>
    exact .goldenIncense name n hleast (hcounts hcount fun _ _ => rfl)
  | antiMidas name n hleast hcount => exact .antiMidas name n hleast (hcounts hcount fun _ _ => rfl)
  | immortalSniper bo n hbo hwin hleast hcount =>
    obtain ⟨traces, hrow⟩ := hgrows.settled hbo (isSettled_of_win hwin)
    exact .immortalSniper { bo with traces := traces } n hrow hwin hleast
      (hcounts hcount fun _ _ => rfl)
  | dustCollector name n hleast hcount =>
    exact .dustCollector name n hleast (hcounts hcount fun _ _ => rfl)
  | pennyPincher name n hleast hcount =>
    exact .pennyPincher name n hleast (hcounts hcount fun _ _ => rfl)
  | phoenixDown s bot low hs hbot hlow hname hleast hback =>
    exact .phoenixDown s bot low (hpast hs) hbot (hgrows.history.subset hlow) hname hleast hback

theorem Resolving.later (h : Resolving past db bo bot) (hpast : past ⊆ past')
    (hgrows : db.Grows db') :
    Resolving past' db' bo bot := by
  refine ⟨h.settled, h.name, ?_, h.loaded.imp fun s hs => ⟨hpast hs.1, hs.2⟩, ?_⟩
  · obtain ⟨traces, hrow⟩ := h.order
    exact hgrows.settled hrow h.settled
  · obtain ⟨mid, hmid, htrades⟩ := h.bot
    obtain ⟨bot', hbot', htrades'⟩ := hgrows.bots mid hmid
    exact ⟨bot', hbot', htrades.trans htrades'⟩

/-- **What a checker finds** is there. -/
theorem check_backed {slug : Slug} (h : Resolving past db bo bot)
    (hfound : slug.check bo bot db = some found) : Backed past db ⟨bot.botName, slug, found⟩ := by
  obtain ⟨traces, hbo⟩ := h.order
  obtain ⟨bot', hbot', x, s, rfl⟩ := h.bot
  obtain ⟨loaded, hpast, hloaded⟩ := h.loaded
  rw [← h.name]
  cases slug with
  | peakBuyer =>
    simp only [Slug.check, checkPeakBuyer] at hfound
    split_ifs at hfound with hresult
    split at hfound
    · next avg havg =>
      split_ifs at hfound with hhigh
      cases hfound
      exact .peakBuyer { bo with traces := traces } avg hbo (not_not.mp hresult) havg hhigh
    · cases hfound
  | blindSniper =>
    simp only [Slug.check, checkBlindSniper] at hfound
    split_ifs at hfound with hresult
    split at hfound
    · next avg havg =>
      split_ifs at hfound with hlow
      cases hfound
      exact .blindSniper { bo with traces := traces } avg hbo (not_not.mp hresult) havg hlow
    · cases hfound
  | pinkSlipSeeker =>
    simp only [Slug.check, checkPinkSlipSeeker] at hfound
    split_ifs at hfound with hinitial hratio
    cases hfound
    exact .pinkSlipSeeker { bo with traces := traces } { bot with balance := x, status := s }
      hbo h.settled hbot' h.name hinitial hratio
  | theMartyr =>
    simp only [Slug.check, checkTheMartyr] at hfound
    split_ifs at hfound with hresult hbroke
    cases hfound
    exact .theMartyr { bo with traces := traces } loaded bot hbo (not_not.mp hresult) hpast hloaded
      h.name hbroke
  | goldenIncense =>
    simp only [Slug.check, checkGoldenIncense, checkLossStreak] at hfound
    split_ifs at hfound with hresult hleast
    cases hfound
    exact .goldenIncense _ _ hleast recentStreak_le
  | antiMidas =>
    simp only [Slug.check, checkAntiMidas, checkLossStreak] at hfound
    split_ifs at hfound with hresult hleast
    cases hfound
    exact .antiMidas _ _ hleast recentStreak_le
  | immortalSniper =>
    simp only [Slug.check, checkImmortalSniper] at hfound
    split_ifs at hfound with hresult hleast
    cases hfound
    exact .immortalSniper { bo with traces := traces } _ hbo
      (not_not.mp hresult) hleast recentStreak_le
  | dustCollector =>
    simp only [Slug.check, checkDustCollector] at hfound
    split_ifs at hfound with hstake hleast
    cases hfound
    exact .dustCollector _ _ hleast le_rfl
  | pennyPincher =>
    simp only [Slug.check, checkPennyPincher] at hfound
    split_ifs at hfound with hleast
    cases hfound
    exact .pennyPincher _ _ hleast recentStreak_le
  | phoenixDown =>
    simp only [Slug.check, checkPhoenixDown] at hfound
    split_ifs at hfound with hback
    split at hfound
    · next least hmin =>
      split_ifs at hfound with hlow
      cases hfound
      obtain ⟨low, hmem, rfl⟩ := List.mem_map.mp (List.min?_mem hmin)
      obtain ⟨hhistory, hname⟩ := List.mem_filter.mp hmem
      rw [h.name]
      exact .phoenixDown loaded bot low hpast hloaded hhistory (of_decide_eq_true hname) hlow
        (not_lt.mp hback)
    · cases hfound

end

/-! ## Calls among other workers -/

/-- Every award is backed, and none is held twice. -/
structure Arena.Justified (past : Set Arena) (s : Arena) : Prop where
  unique : (s.awards.map BotAchievement.key).Nodup
  backed : ∀ a ∈ s.awards, Backed past s.db a

/-- What every commit guarantees. -/
structure Arena.Grows (s s' : Arena) : Prop where
  db : s.db.Grows s'.db
  definitions : s.definitions <+: s'.definitions
  awards : s.awards <+: s'.awards

section

variable {s s' s'' : Arena} {bo : BinaryOption} {bot : Bot} {earned definitions rest : List Slug}
  {added : List BotAchievement} {past past' : Set Arena}

theorem Arena.Grows.refl (s : Arena) : s.Grows s := ⟨.refl s.db, List.prefix_rfl, List.prefix_rfl⟩

theorem Arena.Grows.trans (h : s.Grows s') (h' : s'.Grows s'') : s.Grows s'' :=
  ⟨h.db.trans h'.db, h.definitions.trans h'.definitions, h.awards.trans h'.awards⟩

theorem Arena.Justified.mono (h : s.Justified past) (hpast : past ⊆ past') : s.Justified past' :=
  ⟨h.unique, fun a ha => (h.backed a ha).later hpast (.refl s.db)⟩

theorem award_justified (h : s.Justified past) (hadded : ∀ a ∈ added, Backed past s.db a) :
    (s.award added).Justified past ∧ s.Grows (s.award added) := by
  unfold Arena.award
  split_ifs with hnodup
  · refine ⟨⟨hnodup, fun a ha => ?_⟩, ⟨.refl s.db, List.prefix_rfl, List.prefix_append _ _⟩⟩
    rcases List.mem_append.mp ha with hold | hnew
    · exact h.backed a hold
    · exact hadded a hnew
  · exact ⟨h, .refl s⟩

theorem idle_safe (past : Set Arena) (s : Arena) :
    (Txn.commit id).Safe Arena.Justified Arena.Grows past s :=
  fun _ y _ _ _ hy => ⟨hy.mono (Set.subset_insert _ _), .refl y⟩

/-- **The loop over the checkers**, from any point on. -/
theorem checkAll_safe (h : Resolving past s.db bo bot) (hadded : ∀ a ∈ added, Backed past s.db a) :
    (checkAll bo bot earned definitions rest added).Safe Arena.Justified Arena.Grows past s := by
  induction rest generalizing past s added with
  | nil =>
    intro past' y hpast _ hy hinv
    obtain ⟨hjustified, hgrows⟩ := award_justified hinv fun a ha => (hadded a ha).later hpast hy.db
    exact ⟨hjustified.mono (Set.subset_insert _ _), hgrows⟩
  | cons slug rest ih =>
    unfold checkAll
    split_ifs
    · exact ih h hadded
    · intro past' y hpast _ hy _
      refine ih (h.later hpast hy.db) fun a ha => ?_
      rcases List.mem_append.mp ha with hold | hnew
      · exact (hadded a hold).later hpast hy.db
      · obtain ⟨found, hfound, rfl⟩ := Option.map_eq_some_iff.mp (Option.mem_toList.mp hnew)
        exact check_backed (h.later hpast hy.db) hfound

theorem onTradeResolved_safe (boId : ℕ) (past : Set Arena) (s : Arena) :
    (onTradeResolved boId).Safe Arena.Justified Arena.Grows past s := by
  intro past₁ y _ _ _ _
  dsimp only
  cases hbo : y.db.orders.get boId with
  | none => exact idle_safe past₁ y
  | some bo =>
    dsimp only
    split_ifs with hsettled
    · intro past₂ z _ hpast hz _
      dsimp only
      cases hbot : z.db.bots.get bo.botName with
      | none => exact idle_safe past₂ z
      | some bot =>
        have hresolving : Resolving past₂ z.db bo bot :=
          ⟨hsettled, (Table.key_of_get hbot).symm, hz.db.settled (Table.mem_of_get hbo) hsettled,
            ⟨z, hpast, Table.mem_of_get hbot⟩, bot, Table.mem_of_get hbot, .refl bot⟩
        intro past₃ z' hpast' _ hz' _ past₄ z'' hpast'' _ hz'' _
        exact checkAll_safe (hresolving.later (hpast'.trans hpast'') (hz'.trans hz'').db) (by simp)
    · exact idle_safe past₁ y

theorem seedAchievements_safe (past : Set Arena) (s : Arena) :
    seedAchievements.Safe Arena.Justified Arena.Grows past s := by
  intro _ y _ _ _ _ past' z _ _ _ hz
  have hkept :=
    hz.mono (Set.subset_insert (z.define (DEFINITIONS.filter (· ∉ y.definitions))) past')
  dsimp only
  unfold Arena.define at hkept ⊢
  split_ifs at hkept ⊢
  · exact ⟨⟨hkept.unique, hkept.backed⟩, ⟨.refl z.db, List.prefix_append _ _, List.prefix_rfl⟩⟩
  · exact ⟨hkept, .refl z⟩

theorem program_safe (program : ArenaProgram) (past : Set Arena) (s : Arena) :
    program.txn.Safe Arena.Justified Arena.Grows past s := by
  cases program with
  | trade t =>
    intro past' y _ _ _ hy
    exact ⟨⟨hy.unique, fun a ha => (hy.backed a ha).later (Set.subset_insert _ _)
      (grows_apply t y.db)⟩, ⟨grows_apply t y.db, List.prefix_rfl, List.prefix_rfl⟩⟩
  | seed => exact seedAchievements_safe past s
  | resolved boId => exact onTradeResolved_safe boId past s

end

/-! ## A sample -/

/-- The `i`-th of fifteen losing orders, the first `settled` of which are settled. -/
def losingOrder (settled i : ℕ) : BinaryOption :=
  { id := i + 1, botName := "alpha", symbol := .btc, timeframe := .m5, forecast := .green,
    amount := 99 / 100,
    result := if i < settled then .loss else .pending, avgPrice := some (99 / 100),
      numShares := some 1,
    settlementAt := some 900, meOrderStatus := some .filled }

theorem nodup_losingOrders (settled n : ℕ) :
    (((List.range n).map (losingOrder settled)).map BinaryOption.id).Nodup := by
  rw [List.map_map]
  exact List.nodup_range.map fun i j h => Nat.succ_injective h

def losingArena (settled : ℕ) : Arena where
  db := ⟨⟨[{ botName := "alpha", apiKey := "k", initialBalance := 100, balance := 90 }],
    nodup_sampleBot⟩,
    ⟨(List.range 15).map (losingOrder settled), nodup_losingOrders settled 15⟩,
      ⟨[], List.nodup_nil⟩, [], []⟩

/-- The pending orders of the sample are settled on a red candle. -/
def redSettlement : BalanceTransaction := .settle 1000 fun _ => some ⟨2, 1⟩

/-- The call for the ninth order, with the settlement of the others between the checks for ten and
for fifteen. -/
def disturbedCall : List (TxnAction ArenaProgram) :=
  [.start 0 .seed, .proceed 0, .proceed 0, .start 1 (.resolved 9)] ++ List.replicate 9
    (.proceed 1) ++
    [.start 2 (.trade redSettlement), .proceed 2] ++ List.replicate 6 (.proceed 1)

/-- The call for the last order, with nobody else. -/
def lastCall : List (TxnAction ArenaProgram) :=
  [.start 0 .seed, .proceed 0, .proceed 0, .start 1 (.resolved 15)] ++
    List.replicate 15 (.proceed 1)

theorem run_disturbedCall : ∃ s, Run (Concurrent.step ArenaProgram.txn) (fun _ _ => True)
    (.init (losingArena 9)) s ∧
    s.store.awards.map BotAchievement.key = [("alpha", .peakBuyer), ("alpha", .antiMidas)] := by
  have hexec : (exec (Concurrent.step ArenaProgram.txn) (fun _ _ => True)
      (.init (losingArena 9)) disturbedCall).any
      (fun s => decide (s.store.awards.map BotAchievement.key =
        [("alpha", .peakBuyer), ("alpha", .antiMidas)])) =
        true := by
    decide +kernel
  obtain ⟨s, hs, hkeys⟩ := Option.any_eq_true _ _ |>.mp hexec
  exact ⟨s, run_of_exec hs, of_decide_eq_true hkeys⟩

/-- **Awards are backed.**  However the calls of `on_trade_resolved`, the seeding and the
transactions interleave, each transaction on orders in one step: what a bot was awarded it keeps,
the orders on the books and a store that the run passed bear it out, and no achievement is awarded
to a bot twice. -/
theorem awards_backed {s₀ : Arena} {past₀ past : Set Arena} {s : Concurrent Arena ArenaProgram}
    (h₀ : s₀.Justified past₀)
    (hrun : Concurrent.Passes ArenaProgram.txn (fun _ _ => True) past₀ s₀ past s) :
    s₀.awards <+: s.store.awards ∧ (s.store.awards.map BotAchievement.key).Nodup ∧
      ∀ a ∈ s.store.awards, Backed past s.store.db a := by
  obtain ⟨hinv, hgrows⟩ := Concurrent.relies Arena.Grows.refl (fun _ _ _ => Arena.Grows.trans)
    (fun program past x _ _ => program_safe program past x) (h₀.mono (Set.subset_insert _ _)) hrun
  exact ⟨hgrows.awards, hinv.unique, hinv.backed⟩

/-- Fifteen losses stand behind the second award. -/
theorem awards_backed_disturbed : ∃ past s,
    Concurrent.Passes ArenaProgram.txn (fun _ _ => True) ∅ (losingArena 9) past s ∧
      s.store.awards.length = 2 ∧ ∀ a ∈ s.store.awards, Backed past s.store.db a := by
  obtain ⟨s, hrun, hkeys⟩ := run_disturbedCall
  obtain ⟨past, hpasses⟩ := Concurrent.passes_of_run ∅ hrun
  have hlength : s.store.awards.length = 2 := by
    rw [← List.length_map BotAchievement.key, hkeys]; rfl
  have h₀ : (losingArena 9).Justified ∅ := ⟨List.nodup_nil, by simp [losingArena]⟩
  exact ⟨past, s, hpasses, hlength, (awards_backed h₀ hpasses).2.2⟩

/-! ## Undisturbed calls -/

section

variable {s : Arena} {bo : BinaryOption} {bot : Bot} {earned definitions rest : List Slug}
  {added : List BotAchievement} {name : BotName}

/-- What the loop awards when it runs alone. -/
def newAwards (db : Database) (bo : BinaryOption) (bot : Bot)
    (earned definitions rest : List Slug) :
    List BotAchievement :=
  rest.filterMap fun slug =>
    if slug ∈ earned ∨ slug ∉ definitions then none
    else (slug.check bo bot db).map (BotAchievement.mk bot.botName slug)

theorem checkAll_run : (checkAll bo bot earned definitions rest added).run s =
    s.award (added ++ newAwards s.db bo bot earned definitions rest) := by
  induction rest generalizing added with
  | nil => rw [newAwards, List.filterMap_nil, List.append_nil, checkAll, Txn.run]
  | cons slug rest ih =>
    unfold checkAll newAwards
    rw [List.filterMap_cons]
    split_ifs
    · exact ih
    · refine ih.trans ?_
      dsimp only
      cases slug.check bo bot s.db with
      | none => rw [Option.map_none, Option.toList_none, List.append_nil, newAwards]
      | some found =>
        rw [Option.map_some, Option.toList_some, List.append_assoc,
          List.singleton_append, newAwards]

/-- Who holds the one holds the other. -/
structure Arena.Incense (s : Arena) : Prop where
  definitions : .antiMidas ∈ s.definitions → .goldenIncense ∈ s.definitions
  awards : ∀ name, (name, .antiMidas) ∈ s.awards.map BotAchievement.key →
    (name, .goldenIncense) ∈ s.awards.map BotAchievement.key

theorem mem_earned {slug : Slug} : slug ∈ s.earned bot ↔
    (bot.botName, slug) ∈ s.awards.map BotAchievement.key := by
  unfold Arena.earned
  constructor
  · intro h
    obtain ⟨a, ha, rfl⟩ := List.mem_map.mp h
    obtain ⟨hmem, hname⟩ := List.mem_filter.mp ha
    exact List.mem_map.mpr ⟨a, hmem, congrArg (·, a.slug) (of_decide_eq_true hname)⟩
  · intro h
    obtain ⟨a, ha, heq⟩ := List.mem_map.mp h
    obtain ⟨hname, hslug⟩ := Prod.mk.inj heq
    exact List.mem_map.mpr ⟨a, List.mem_filter.mpr ⟨ha, decide_eq_true hname⟩, hslug⟩

/-- Fifteen losses in a row are ten. -/
theorem incense_of_midas {found : AwardMetadata}
    (h : Slug.antiMidas.check bo bot s.db = some found) :
    (Slug.goldenIncense.check bo bot s.db).isSome = true := by
  simp only [Slug.check, checkAntiMidas, checkGoldenIncense, checkLossStreak] at h ⊢
  split_ifs at h with hresult hleast
  rw [if_neg hresult, if_pos (by omega)]
  rfl

/-- **A call alone.** -/
theorem Arena.Incense.award (h : s.Incense) :
    (s.award (newAwards s.db bo bot (s.earned bot) s.definitions CHECKERS)).Incense := by
  unfold Arena.award
  split_ifs
  · refine ⟨h.definitions, fun name hname => ?_⟩
    rw [List.map_append, List.mem_append] at hname ⊢
    rcases hname with hold | hnew
    · exact .inl (h.awards name hold)
    · obtain ⟨a, ha, hkey⟩ := List.mem_map.mp hnew
      obtain ⟨slug, -, hslug⟩ := List.mem_filterMap.mp ha
      split_ifs at hslug with hskip
      obtain ⟨found, hfound, rfl⟩ := Option.map_eq_some_iff.mp hslug
      obtain ⟨rfl, rfl⟩ := Prod.mk.inj hkey
      rw [not_or, not_not] at hskip
      by_cases hearned : .goldenIncense ∈ s.earned bot
      · exact .inl (mem_earned.mp hearned)
      · obtain ⟨found', hfound'⟩ := Option.isSome_iff_exists.mp (incense_of_midas hfound)
        refine .inr (List.mem_map.mpr ⟨⟨bot.botName, .goldenIncense, found'⟩, ?_, rfl⟩)
        refine List.mem_filterMap.mpr ⟨.goldenIncense, by decide, ?_⟩
        rw [if_neg (by rw [not_or, not_not]; exact ⟨hearned, h.definitions hskip.2⟩), hfound']
        rfl
  · exact h

theorem Arena.Incense.run (h : s.Incense) (program : ArenaProgram) :
    (program.txn.run s).Incense := by
  cases program with
  | trade t => exact ⟨h.definitions, h.awards⟩
  | seed =>
    show (s.define _).Incense
    unfold Arena.define
    split_ifs
    · refine ⟨fun hdef => ?_, h.awards⟩
      by_cases hgolden : Slug.goldenIncense ∈ s.definitions
      · exact List.mem_append_left _ hgolden
      · exact List.mem_append_right _ (List.mem_filter.mpr ⟨by decide, decide_eq_true hgolden⟩)
    · exact h
  | resolved boId =>
    show ((onTradeResolved boId).run s).Incense
    unfold onTradeResolved
    rw [Txn.run]
    cases s.db.orders.get boId with
    | none => exact h
    | some bo =>
      dsimp only
      split_ifs
      · rw [Txn.run]
        cases s.db.bots.get bo.botName with
        | none => exact h
        | some bot =>
          show ((checkAll _ _ _ _ _ _).run s).Incense
          rw [checkAll_run, List.nil_append]
          exact h.award
      · exact h

end

/-- **Fifteen losses come after ten**, as long as every call and every seeding commits on what it
has read. -/
theorem anti_midas_has_incense {s₀ : Arena} {s : Concurrent Arena ArenaProgram} (h₀ : s₀.Incense)
    (hrun : Run (Concurrent.step ArenaProgram.txn) (fun s a => s.undisturbed a = true)
      (.init s₀) s) :
    ∀ name, (name, .antiMidas) ∈ s.store.awards.map BotAchievement.key →
      (name, .goldenIncense) ∈ s.store.awards.map BotAchievement.key := by
  rw [Concurrent.serializable hrun]
  refine (List.foldlRecOn (motive := Arena.Incense) s.committed _ h₀ ?_).awards
  exact fun x hx program _ => hx.run program

/-- Fifteen settled losses, and one call. -/
theorem anti_midas_has_incense_last :
    ∃ s, Run (Concurrent.step ArenaProgram.txn) (fun s a => s.undisturbed a = true)
    (.init (losingArena 15)) s ∧ ("alpha", .goldenIncense) ∈
      s.store.awards.map BotAchievement.key := by
  have hexec : (exec (Concurrent.step ArenaProgram.txn) (fun s a => s.undisturbed a = true)
      (.init (losingArena 15))
      lastCall).any (fun s => decide (("alpha", .antiMidas) ∈
        s.store.awards.map BotAchievement.key)) = true := by
    decide +kernel
  obtain ⟨s, hs, hmidas⟩ := Option.any_eq_true _ _ |>.mp hexec
  have hrun := run_of_exec hs
  exact ⟨s, hrun, anti_midas_has_incense ⟨by simp [losingArena], by simp [losingArena]⟩ hrun _
    (of_decide_eq_true hmidas)⟩

/-- **A settlement between the two checks** makes fifteen of nine: the bot has the award for fifteen
losses and not the one for ten. -/
theorem incense_missed : ∃ s, Run (Concurrent.step ArenaProgram.txn) (fun _ _ => True)
    (.init (losingArena 9)) s ∧
    ("alpha", .antiMidas) ∈ s.store.awards.map BotAchievement.key ∧
      ("alpha", .goldenIncense) ∉ s.store.awards.map BotAchievement.key := by
  obtain ⟨s, hrun, hkeys⟩ := run_disturbedCall
  refine ⟨s, hrun, ?_⟩
  rw [hkeys]
  decide

end PolyArena

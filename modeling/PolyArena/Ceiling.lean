import PolyArena.Api.FillOrKill
import PolyArena.OrderConsumer.PriceCaps
import PolyArena.OrderConsumer.Process
import PolyArena.WalkPrices

/-!
# The ceiling

An order with a `ceiling_price` should never pay more.  The MARKET sweep stops at the ceiling and
the pre-check refuses one below the best ask; `_fill_limit_from_snapshot` and the matching engine
know the limit only.

1. `walkAsks_within_iff`: when a walk to the limit takes nothing above the ceiling.
2. `choosePath_keeps_iff`: when an accepted request neither paid more at once nor left an order to
   the engine that may.
3. `ceiling_kept`: then no level above the ceiling is ever told or recorded of the order, in any run
   of a book and for any messages of it that are handled.
-/

namespace PolyArena

open Rounding ShadowOrderbook

/-! ## The walk -/

section

variable {cap maxPrice budget : ℚ} {asks : List AskLevel} {w : Walk}

/-- What a walk took it keeps. -/
theorem mem_walkAsks {lv : FillLevel} (hlv : lv ∈ w.walkLevels) :
    lv ∈ (walkAsks maxPrice budget asks w).walkLevels := by
  induction asks generalizing w with
  | nil => exact hlv
  | cons a asks ih =>
    unfold walkAsks
    dsimp only
    split_ifs
    · exact hlv
    · exact hlv
    · exact List.mem_append_left _ hlv
    · exact ih (List.mem_append_left _ hlv)

/-- **What a walk takes is within `cap`** exactly when the asks within `cap` use up the budget, or
are all that the walk can reach. -/
theorem walkAsks_within_iff (budget : ℚ) (asks : List AskLevel) (hcap : cap ≤ maxPrice)
    (hw : ∀ lv ∈ w.walkLevels, lv.price ≤ cap) :
    (∀ lv ∈ (walkAsks maxPrice budget asks w).walkLevels, lv.price ≤ cap) ↔
      budget ≤ w.totalCost + offeredCost cap asks ∨
        reachable cap asks = reachable maxPrice asks := by
  induction asks generalizing w with
  | nil => exact iff_of_true hw (.inr rfl)
  | cons a asks ih =>
    unfold walkAsks
    dsimp only
    by_cases hprice : maxPrice < a.price
    · rw [if_pos hprice, reachable_cons_neg hprice, reachable_cons_neg (hcap.trans_lt hprice)]
      exact iff_of_true hw (.inr rfl)
    rw [if_neg hprice]
    by_cases hspent : budget - w.totalCost ≤ 0
    · rw [if_pos hspent]
      have hoffer : 0 ≤ offeredCost cap (a :: asks) := offeredCost_nonneg
      exact iff_of_true hw (.inl (by linarith))
    rw [if_neg hspent, levelCost_eq, reachable_cons_pos (not_lt.mp hprice)]
    by_cases hwithin : a.price ≤ cap
    · have hlevels : ∀ lv ∈ w.walkLevels ++ [FillLevel.mk a.price
          (min a.size ((budget - w.totalCost) / a.price))
          (min (a.size * a.price) (budget - w.totalCost))], lv.price ≤ cap := by
        intro lv hlv
        rcases List.mem_append.mp hlv with hlv | hlv
        · exact hw lv hlv
        · rw [List.mem_singleton.mp hlv]
          exact hwithin
      have hrest : 0 ≤ offeredCost cap asks := offeredCost_nonneg
      rw [offeredCost_cons hwithin, reachable_cons_pos hwithin, List.cons_inj_right]
      by_cases hdone : budget ≤ w.totalCost + min (a.size * a.price) (budget - w.totalCost)
      · rw [if_pos hdone]
        have hless := min_le_left (a.size * a.price) (budget - w.totalCost)
        exact iff_of_true hlevels (.inl (by linarith))
      · rw [if_neg hdone, ih hlevels]
        -- the whole level was taken
        have hall : min (a.size * a.price) (budget - w.totalCost) = a.size * a.price := by
          rcases min_choice (a.size * a.price) (budget - w.totalCost) with hmin | hmin
          · exact hmin
          · rw [hmin] at hdone
            linarith
        rw [hall, add_assoc]
    · rw [reachable_cons_neg (not_le.mp hwithin), offeredCost,
        reachable_cons_neg (not_le.mp hwithin)]
      refine iff_of_false (fun hall => hwithin ?_) ?_
      · have hmem : FillLevel.mk a.price (min a.size ((budget - w.totalCost) / a.price))
            (min (a.size * a.price) (budget - w.totalCost)) ∈ w.walkLevels ++ [FillLevel.mk a.price
              (min a.size ((budget - w.totalCost) / a.price))
                (min (a.size * a.price) (budget - w.totalCost))] :=
          List.mem_append_right _ List.mem_cons_self
        split at hall
        · exact hall _ hmem
        · exact hall _ (mem_walkAsks hmem)
      · rintro (hle | hnil)
        · simp only [List.map_nil, List.sum_nil] at hle
          linarith
        · cases hnil

end

/-! ## An accepted request -/

/-- The payload is for a LIMIT BUY at up to `cap`. -/
def QueuePayload.AsksWithin (cap : ℚ) (m : QueuePayload) : Prop :=
  m.side = "BUY" ∧ ∃ limit ∈ m.limitPrice, limit ≤ cap

/-- The request keeps its ceiling: it has no limit, or none above the ceiling, or its snapshot
offers the whole amount at up to the ceiling, or nothing between the ceiling and the limit.  In the
last case, when some of the amount is left, some must have been bought, for a LIMIT order that
bought nothing goes to the engine with its limit. -/
def CeilingSafe (p : BOCreate) (second : SnapshotRead) (cap : ℚ) : Prop :=
  ∀ limit ∈ p.limitPrice, limit ≤ cap ∨ ∃ asks, second = .asks asks ∧
    (p.amount ≤ offeredCost cap asks ∨ reachable cap asks = reachable limit asks ∧
      (0 < round8 (max 0 (p.amount - offeredCost limit asks)) → 0 < round8 (offeredQty limit asks)))

/-- Nothing was paid above `cap`, and what is queued to be bought is not to be bought above it. -/
structure Draft.KeepsCeiling {k : ℕ} (cap : ℚ) (d : Draft k) : Prop where
  levels : ∀ lv ∈ d.row.entryLevels, lv.price ≤ cap
  queued : ∀ x ∈ d.queue, x.1.prefilled = false → x.1.AsksWithin cap

section

variable {now : Time} {db : Database} {apiKey : String} {p : BOCreate} {first second : SnapshotRead}
  {queueUp : Bool} {r : Admitted} {k : ℕ} {limit cap : ℚ} {d : Draft k} {asks : List AskLevel}

/-- An admitted request does not have its ceiling below the best ask. -/
theorem admitRequest_ceiling (hceiling : p.ceilingPrice = some cap)
    (h : admitRequest now db apiKey p first = .ok r) : r.bestAsk ≤ cap := by
  unfold admitRequest at h
  obtain ⟨bot, hbot, h⟩ := ok_of_bind h
  obtain ⟨session, -, h⟩ := ok_of_bind h
  obtain ⟨bestAsk, hask, h⟩ := ok_of_bind h
  obtain ⟨_, hvalid, h⟩ := ok_of_bind h
  cases h
  unfold preValidate at hvalid
  rw [hceiling] at hvalid
  by_contra hbelow
  simp only [if_pos (not_le.mp hbelow)] at hvalid
  cases hvalid

theorem marketOrder_keeps (hceiling : p.ceilingPrice = some cap)
    (h : marketOrder now r p second k = .ok d) : d.KeepsCeiling cap := by
  obtain ⟨avg, shares, levels, hfill, rfl⟩ := marketOrder_ok h
  obtain ⟨asks, rfl, rfl, -⟩ := fillMarket_ok hfill
  refine ⟨fun lv hlv => ?_, fun x hx hprefilled => ?_⟩
  · obtain ⟨a, -, hle, htaken⟩ := (walkAsks_taken _ _ _ _ hlv).resolve_left List.not_mem_nil
    rw [htaken.price]
    refine hle.trans ?_
    unfold marketMaxPrice
    rw [hceiling]
    exact min_le_right _ _
  · replace hx : (if p.hasBracket then some (r.prefilledPayload p k avg shares,
        some TraceAction.bracketQueued)
        else none) = some x := hx
    split at hx
    · cases hx
      cases hprefilled
    · cases hx

theorem passiveLimit_keeps (hlimit : limit ≤ cap) :
    (passiveLimit now r p k limit).KeepsCeiling cap := by
  refine ⟨fun lv hlv => absurd hlv List.not_mem_nil, fun x hx _ => ?_⟩
  cases hx
  exact ⟨rfl, limit, rfl, hlimit⟩

/-- What an aggressive LIMIT leaves to the engine. -/
theorem aggressiveDraft_queued {f : LimitFill} :
    (∀ x ∈ (aggressiveDraft now r p k limit f).queue, x.1.prefilled = false → x.1.AsksWithin cap) ↔
      (0 < f.remainingBudget → 0 < f.numShares ∨ limit ≤ cap) := by
  unfold aggressiveDraft
  dsimp only
  split
  · next hrest =>
    have hpayload : ∀ avg filled, QueuePayload.AsksWithin cap
        { r.limitPayload p k limit f.remainingBudget with
          prefilled := decide (0 < f.numShares)
          prefilledAvgPrice := avg
          prefilledFilled := filled } ↔ limit ≤ cap := by
      intro avg filled
      constructor
      · rintro ⟨-, l, hl, hle⟩
        cases hl
        exact hle
      · exact fun hle => ⟨rfl, limit, rfl, hle⟩
    simp only [Option.mem_def, Option.some.injEq, forall_eq']
    rw [hpayload, decide_eq_false_iff_not]
    tauto
  · next hnone =>
    refine iff_of_true (fun x hx hprefilled => ?_) fun hrest => absurd hrest hnone
    split at hx
    · cases hx
      cases hprefilled
    · cases hx

theorem offeredCost_mono (asks : List AskLevel) (hcap : cap ≤ limit) :
    offeredCost cap asks ≤ offeredCost limit asks := by
  induction asks with
  | nil => rfl
  | cons a asks ih =>
    by_cases hwithin : a.price ≤ cap
    · rw [offeredCost_cons hwithin, offeredCost_cons (hwithin.trans hcap)]
      exact add_le_add_right ih _
    · rw [offeredCost, reachable_cons_neg (not_le.mp hwithin)]
      exact offeredCost_nonneg

/-- **When an aggressive LIMIT keeps its ceiling.** -/
theorem aggressiveLimit_keeps_iff (hlimit : p.limitPrice = some limit)
    (h : aggressiveLimit now r p second k limit = .ok d) : d.KeepsCeiling cap ↔
      CeilingSafe p second cap := by
  obtain ⟨f, hfill, rfl⟩ := aggressiveLimit_ok h
  obtain ⟨asks, rfl, hlevels, -, -⟩ := fillLimit_ok hfill
  have hrest : f.remainingBudget = round8 (max 0 (p.amount - offeredCost limit asks)) := by
    obtain ⟨asks', heq, hrest⟩ := remainingBudget_eq hfill p.amount_positive.le
    cases heq
    exact hrest
  have hshares : 0 < f.remainingBudget → f.numShares =
      round8 (offeredQty limit asks) := fun hpos => by
    obtain ⟨asks', heq, hshares⟩ := numShares_eq hfill p.amount_positive.le hpos
    cases heq
    exact hshares
  have hsafe : CeilingSafe p (.asks asks) cap ↔ limit ≤ cap ∨ p.amount ≤ offeredCost cap asks ∨
      reachable cap asks = reachable limit asks ∧
        (0 < round8 (max 0 (p.amount - offeredCost limit asks)) →
          0 < round8 (offeredQty limit asks)) := by
    simp [CeilingSafe, hlimit]
  rw [hsafe]
  by_cases hle : limit ≤ cap
  · refine iff_of_true ⟨fun lv hlv => ?_, aggressiveDraft_queued.mpr fun _ => .inr hle⟩ (.inl hle)
    rw [entryLevels_aggressiveDraft, hlevels] at hlv
    obtain ⟨a, -, hreach, htaken⟩ := (walkAsks_taken _ _ _ _ hlv).resolve_left List.not_mem_nil
    exact htaken.price ▸ hreach.trans hle
  · have hwalk := walkAsks_within_iff p.amount asks (w := {}) (not_le.mp hle).le
      fun lv hlv => absurd hlv List.not_mem_nil
    rw [← hlevels, zero_add] at hwalk
    constructor
    · intro hkeeps
      right
      rcases hwalk.mp (fun lv hlv => hkeeps.levels lv
        (by rwa [entryLevels_aggressiveDraft])) with hall | hreach
      · exact .inl hall
      · refine .inr ⟨hreach, fun hpos => ?_⟩
        rw [← hrest] at hpos
        rw [← hshares hpos]
        exact (aggressiveDraft_queued.mp hkeeps.queued hpos).resolve_right hle
    · intro hsafe
      replace hsafe := hsafe.resolve_left hle
      refine ⟨fun lv hlv => ?_, aggressiveDraft_queued.mpr fun hpos => .inl ?_⟩
      · rw [entryLevels_aggressiveDraft] at hlv
        exact hwalk.mpr (hsafe.imp_right And.left) lv hlv
      · rcases hsafe with hall | ⟨-, hbought⟩
        · -- nothing is left of the amount
          have hmore := hall.trans (offeredCost_mono asks (not_le.mp hle).le)
          rw [hrest, max_eq_left (sub_nonpos.mpr hmore)] at hpos
          exact absurd hpos (by rw [show round8 0 = 0 from roundTo_zero 8]; exact lt_irrefl 0)
        · rw [hshares hpos]
          exact hbought (hrest ▸ hpos)

theorem choosePath_keeps_iff (hceiling : p.ceilingPrice = some cap) (hbest : r.bestAsk ≤ cap)
    (h : choosePath now r p second k = .ok d) : d.KeepsCeiling cap ↔ CeilingSafe p second cap := by
  unfold choosePath at h
  cases hlimit : p.limitPrice with
  | none =>
    rw [hlimit] at h
    exact iff_of_true (marketOrder_keeps hceiling h) (by simp [CeilingSafe, hlimit])
  | some limit =>
    rw [hlimit] at h
    dsimp only at h
    split at h
    · exact aggressiveLimit_keeps_iff hlimit h
    · next hpassive =>
      cases h
      have hle : limit ≤ cap := (not_le.mp hpassive).le.trans hbest
      exact iff_of_true (passiveLimit_keeps hle) (by simp [CeilingSafe, hlimit, hle])

end

/-! ## The order at the engine -/

/-- The run places no standard order for the row but those of its payload. -/
def Created.PlacesPayload (c : Created) (_ : Desk) (a : DeskAction) : Prop :=
  ∀ q, a.PlacesFor c.bo.id q →
    ∃ m ∈ c.queued, m.prefilled = false ∧ ∃ now bestAsk, m.orderRequest now bestAsk = some q

section

variable {cap : ℚ} {m : QueuePayload} {q : OrderRequest} {now : Time} {bestAsk : Option ℚ}
  {tokenId : String} {c : Created} {d : Desk}

/-- The order of a payload for a LIMIT BUY. -/
theorem QueuePayload.AsksWithin.request (h : m.AsksWithin cap)
    (hq : m.orderRequest now bestAsk = some q) :
    q.side = .buy ∧ q.orderType = .limit ∧ q.price ≤ cap := by
  obtain ⟨hside, limit, hlimit, hle⟩ := h
  rw [Option.mem_def] at hlimit
  unfold QueuePayload.orderRequest QueuePayload.orderSide at hq
  rw [if_pos hside] at hq
  cases hp : m.price with
  | none => simp [hp] at hq
  | some price =>
    cases hn : m.quantity with
    | none => simp [hp, hn] at hq
    | some quantity =>
      simp only [hp, hn, Option.some.injEq] at hq
      subst hq
      exact ⟨rfl, by simp [hlimit], by simpa [hlimit] using hle⟩

/-- **Every fill message of the row** tells levels within the cap, in any run of a book. -/
theorem fills_within (hqueued : ∀ m ∈ c.queued, m.prefilled = false → m.AsksWithin cap)
    (hrun : Run Desk.step c.PlacesPayload (Desk.new tokenId) d) :
    ∀ m, .fill m ∈ d.consumer.published → m.boId = c.bo.id → LevelsWithin cap m.levels := by
  have hinv : (∃ taken, Desk.DeskTells taken d) ∧ ∃ ids, CappedRow cap ids c.bo.id d := by
    refine hrun.invariant (fun d => (∃ taken, Desk.DeskTells taken d) ∧ ∃ ids,
      CappedRow cap ids c.bo.id d)
      ⟨⟨[], Desk.deskTells_new tokenId⟩, [], cappedRow_new tokenId⟩ ?_
    rintro d a d' ⟨⟨taken, htells⟩, ids, hcapped⟩ hplaces hstep
    refine ⟨⟨_, (Desk.deskTells_step htells hstep).1⟩,
      cappedRow_step htells.inv hcapped (fun q hq => ?_) hstep⟩
    obtain ⟨m, hm, hprefilled, now, bestAsk, hrequest⟩ := hplaces q hq
    exact (hqueued m hm hprefilled).request hrequest
  obtain ⟨-, ids, hcapped⟩ := hinv
  exact hcapped.consumer.published

/-! ## What is recorded -/

/-- Levels that are handed to the column of a row come from a message about it. -/
theorem mem_levelWrites {k : ℕ} {db : Database} {hs : List Handling} {ls : List FillLevel}
    (hw : .entry ls ∈ db.levelWrites k hs) :
    ∃ h ∈ hs, ∃ m, h.message = .fill m ∧ m.boId = k ∧ m.walkPrices = some ls := by
  induction hs generalizing db with
  | nil => cases hw
  | cons h hs ih =>
    rcases List.mem_append.mp hw with hw | hw
    · rw [Option.mem_toList, Option.bind_eq_some_iff] at hw
      obtain ⟨bo, hget, hhandled⟩ := hw
      refine ⟨h, List.mem_cons_self .., ?_⟩
      cases hm : h.message with
      | fill m =>
        rw [hm, BinaryOption.handled] at hhandled
        split at hhandled
        · next hrow =>
          obtain ⟨ls', hls, heq⟩ := Option.map_eq_some_iff.mp hhandled
          cases heq
          exact ⟨m, rfl, hrow.1.trans (Table.key_of_get hget), hls⟩
        · cases hhandled
      | exit m =>
        rw [hm, BinaryOption.handled] at hhandled
        split at hhandled
        · obtain ⟨ls', -, heq⟩ := Option.map_eq_some_iff.mp hhandled
          cases heq
        · cases hhandled
      | cancel m => rw [hm] at hhandled; cases hhandled
      | resolved ids => rw [hm] at hhandled; cases hhandled
    · obtain ⟨h', hh', hm⟩ := ih hw
      exact ⟨h', List.mem_cons_of_mem _ hh', hm⟩

/-- **What is recorded of the entry** was there before, or in a message that was handled. -/
theorem entryLevels_handled {k : ℕ} {db : Database} {hs : List Handling} {bo bo' : BinaryOption}
    {lv : FillLevel} (hget : db.orders.get k = some bo)
    (hget' : (hs.foldl Database.handleOne db).orders.get k = some bo')
    (hlv : lv ∈ bo'.entryLevels) : lv ∈ bo.entryLevels ∨
      ∃ h ∈ hs, ∃ m, h.message = .fill m ∧ m.boId = k ∧ lv ∈ m.walkPrices.getD [] := by
  obtain ⟨x, hx, hwp⟩ := walkPrices_handled hs hget
  rw [hget', Option.some.injEq] at hx
  subst hx
  unfold BinaryOption.entryLevels at hlv ⊢
  rw [hwp] at hlv
  cases hstored : bo.walkPrices with
  | some wp =>
    rw [hstored, foldl_persist_some] at hlv
    exact .inl hlv
  | none =>
    rw [hstored, foldl_persist_none] at hlv
    right
    cases hws : db.levelWrites k hs with
    | nil =>
      rw [hws] at hlv
      exact absurd hlv List.not_mem_nil
    | cons w ws =>
      rw [hws] at hlv
      replace hlv : lv ∈ w.entryLevels := hlv
      cases w with
      | exit ls => exact absurd hlv List.not_mem_nil
      | entry ls =>
        obtain ⟨h, hh, m, hm, hrow, hls⟩ :=
          mem_levelWrites (hws ▸ List.mem_cons_self : .entry ls ∈ db.levelWrites k hs)
        exact ⟨h, hh, m, hm, hrow, by rw [hls]; exact hlv⟩

/-! ## The ceiling is kept -/

/-- No level above `cap` is recorded of the order of `c`: at once, in a fill message of the book
`d`, and in the row after the messages `hs`. -/
structure CeilingKept (c : Created) (d : Desk) (hs : List Handling) (cap : ℚ) : Prop where
  immediate : ∀ lv ∈ c.bo.entryLevels, lv.price ≤ cap
  published : ∀ m, .fill m ∈ d.consumer.published → m.boId = c.bo.id → LevelsWithin cap m.levels
  recorded : ∀ bo ∈ (hs.foldl Database.handleOne c.db).orders.get c.bo.id, ∀ lv ∈ bo.entryLevels,
    lv.price ≤ cap

variable {db : Database} {apiKey : String} {p : BOCreate} {first second : SnapshotRead}
  {queueUp : Bool} {hs : List Handling}

/-- The queued payload is that of the draft. -/
theorem createBo_keeps {id : db.FreshId} (hceiling : p.ceilingPrice = some cap)
    (h : createBo now db apiKey p first second queueUp id = .ok c)
    (hsafe : CeilingSafe p second cap) :
    (∀ lv ∈ c.bo.entryLevels, lv.price ≤ cap) ∧
      ∀ m ∈ c.queued, m.prefilled = false → m.AsksWithin cap := by
  obtain ⟨r, d, hr, hd, rfl⟩ := createBo_ok h
  have hkeeps := (choosePath_keeps_iff hceiling (admitRequest_ceiling hceiling hr) hd).mpr hsafe
  refine ⟨by rw [entryLevels_commitDraft]; exact hkeeps.levels, fun m hm hprefilled => ?_⟩
  replace hm : (if queueUp then d.queue.map Prod.fst else none) = some m := hm
  split at hm
  · obtain ⟨x, hx, rfl⟩ := Option.map_eq_some_iff.mp hm
    exact hkeeps.queued x hx hprefilled
  · cases hm

/-- **The ceiling is never exceeded** by an accepted order whose request keeps it: not by what is
bought at once, not in any run of a book that has the order of its payload, and not in what is
recorded of the messages of that run. -/
theorem ceiling_kept {id : db.FreshId} (hceiling : p.ceilingPrice = some cap)
    (h : createBo now db apiKey p first second queueUp id = .ok c)
    (hsafe : CeilingSafe p second cap) (hrun : Run Desk.step c.PlacesPayload (Desk.new tokenId) d)
    (hhandled : ∀ h ∈ hs, ∀ m, h.message = .fill m → m.boId = c.bo.id →
      .fill m ∈ d.consumer.published) :
    CeilingKept c d hs cap := by
  obtain ⟨hlevels, hqueued⟩ := createBo_keeps hceiling h hsafe
  have hpublished := fills_within hqueued hrun
  refine ⟨hlevels, hpublished, fun bo hget lv hlv => ?_⟩
  rcases entryLevels_handled c.stored hget hlv with hold | ⟨h, hh, m, hm, hrow, hmem⟩
  · exact hlevels lv hold
  · exact hpublished m (hhandled h hh m hm hrow) hrow (lv.price, lv.qty) (List.mem_map_of_mem hmem)

end

/-! ## On samples -/

/-- `limitRequest`, a LIMIT order of `10` at `0.50`, with a ceiling. -/
def ceilingRequest (cap : ℚ) (hcap : 0 < cap ∧ cap < 1) : BOCreate :=
  { limitRequest with
    ceilingPrice := some cap
    ceilingPrice_in_range := by intro p hp; cases hp; exact hcap }

/-- What `create_bo` does with it. -/
def ceilingOn (cap : ℚ) (hcap : 0 < cap ∧ cap < 1) (asks : SnapshotRead) :
    Except HttpDetail Created :=
  createBo 1000 oneBotDb "k" (ceilingRequest cap hcap) asks asks true ⟨1, fresh_oneBotDb⟩

/-- Ten shares at `0.55`. -/
def asksAbove : SnapshotRead := .asks [⟨11 / 20, 10, pos_eleven_twentieths, nonneg_ten⟩]

/-- Ten shares at `0.40`, then a hundred at `0.45`. -/
def asksInSteps : SnapshotRead :=
  .asks [⟨2 / 5, 10, pos_two_fifths, nonneg_ten⟩,
    ⟨9 / 20, 100, pos_nine_twentieths, nonneg_hundred⟩]

/-- The order that the consumer reads from the payload. -/
def queuedTwenty : OrderRequest := { Desk.twentyShares with timeframe := some .m5 }

/-- A placement is that of `queuedTwenty`. -/
def DeskAction.placesQueued : DeskAction → Bool
  | .place _ _ _ r => r = queuedTwenty
  | _ => true

/-- Ten shares of the order at `0.40`. -/
def tenBought : FillMessage := ⟨1, some 7, 10, 2 / 5, .partial_, some [⟨2 / 5, 10, 4⟩]⟩

/-- A passive LIMIT below its ceiling, bought in part by the engine. -/
theorem ceiling_kept_passive : ∃ c d, ceilingOn (3 / 5) (by norm_num) asksAbove = .ok c ∧
    .fill tenBought ∈ d.consumer.published ∧
    CeilingKept c d [handledAtZero (.fill tenBought)] (3 / 5) := by
  have hpayload : (match ceilingOn (3 / 5) (by norm_num) asksAbove with
      | .ok c => c.queued.any fun m => !m.prefilled && m.orderRequest 1000 none = some queuedTwenty
      | .error _ => false) = true := by decide +kernel
  have hrun : (exec Desk.step (fun _ a => a.placesQueued = true) (Desk.new "T")
      (placedFirst queuedTwenty ++ tenOffered)).any
        (fun d => .fill tenBought ∈ d.consumer.published) = true := by decide +kernel
  obtain ⟨d, hd, hpublished⟩ := Option.any_eq_true _ _ |>.mp hrun
  cases hc : ceilingOn (3 / 5) (by norm_num) asksAbove with
  | error e => rw [hc] at hpayload; cases hpayload
  | ok c =>
    rw [hc] at hpayload
    obtain ⟨m, hm, hrequest⟩ := Option.any_eq_true _ _ |>.mp hpayload
    rw [Bool.and_eq_true, Bool.not_eq_true', decide_eq_true_eq] at hrequest
    refine ⟨c, d, rfl, of_decide_eq_true hpublished,
      ceiling_kept rfl hc ?_ (Run.mono ?_ (run_of_exec hd)) ?_⟩
    · intro limit hlimit
      cases hlimit
      exact .inl (by norm_num)
    · intro s a hplaces q hq
      cases a with
      | place now boId id r =>
        obtain ⟨-, rfl⟩ := hq
        rw [of_decide_eq_true hplaces]
        exact ⟨m, hm, hrequest.1, 1000, none, hrequest.2⟩
      | _ => cases hq
    · intro h hh x hx _
      rw [List.mem_singleton.mp hh] at hx
      cases hx
      exact of_decide_eq_true hpublished

/-- **A level above the ceiling**: with a ceiling of `0.42` the order passes the pre-check, and buys
at `0.45`, for its limit is `0.50`. -/
theorem ceiling_exceeded : ¬ ∀ (now : Time) (db : Database) (apiKey : String) (p : BOCreate)
    (first second : SnapshotRead) (queueUp : Bool) (id : db.FreshId) (c : Created) (cap : ℚ),
    p.ceilingPrice = some cap → createBo now db apiKey p first second queueUp id = .ok c →
      ∀ lv ∈ c.bo.entryLevels, lv.price ≤ cap := by
  intro hall
  have hrun : (match ceilingOn (21 / 50) (by norm_num) asksInSteps with
      | .ok c => decide (∃ lv ∈ c.bo.entryLevels, lv.price = 9 / 20)
      | .error _ => false) = true := by
    decide +kernel
  cases hc : ceilingOn (21 / 50) (by norm_num) asksInSteps with
  | error e => rw [hc] at hrun; cases hrun
  | ok c =>
    rw [hc] at hrun
    obtain ⟨lv, hlv, hprice⟩ := of_decide_eq_true hrun
    have hwithin := hall _ _ _ _ _ _ _ _ c (21 / 50) rfl hc lv hlv
    rw [hprice] at hwithin
    norm_num at hwithin

end PolyArena

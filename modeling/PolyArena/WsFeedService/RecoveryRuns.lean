import PolyArena.WsFeedService.Recovered
import PolyArena.WsFeedService.BookFrames

/-!
# Runs of recovery

After a restart recovery queues payloads of the rows, and the consumer takes them while the feed and
other orders go on (`RecoveryRun`).

1. `recoverPendingOrders_payloads`: what is queued, at most one payload of a row.
2. `recoveryInv_of_run`: no order stands for a row whose payload still waits.
3. `recovery_restores_iff`: in every run a row whose payload is taken is restored exactly when it
   has no open bracket and, if it is open, what recovery asks for is what is left, for the order's
   own candle.
-/

namespace PolyArena

open ShadowOrderbook Rounding

section

variable {s s' : FeedService} {bo : BinaryOption} {sid : SessionId} {dir : Direction}
  {b : ShadowOrderbook} {r : TokenRegistry} {now now' : Time} {id : OrderId} {p : RecoveryPayload}

/-! ## What taking up a payload leaves alone -/

theorem queuedPayload_boId (h : bo.queuedPayload r now = some p) : p.boId = bo.id := by
  obtain ⟨-, token, -, rfl⟩ := queuedPayload_some h
  rfl

theorem quantity_pos_of_queued (hsound : bo.Sound) (h : bo.queuedPayload r now = some p) :
    0 < p.quantity := by
  obtain ⟨hrec, token, -, rfl⟩ := queuedPayload_some h
  refine recoveryFill_pos hsound ?_
  unfold BinaryOption.isRecovered at hrec
  simp only [Bool.and_eq_true, Bool.not_eq_true'] at hrec
  have hfilled := hrec.1.2
  cases hlimit : bo.isLimit with
  | true => exact .inl rfl
  | false => simpa [hlimit] using hfilled

/-- Only the row of the payload gets an order. -/
theorem processRecovered_tracked {k : OrderId} {v : ℕ} (hq : 0 < p.quantity)
    (h : (s.processRecovered now' p id).consumer.orderToBo.get? k = some v) :
    s.consumer.orderToBo.get? k = some v ∨ v = p.boId := by
  unfold FeedService.processRecovered at h
  split at h
  · exact .inl h
  · split at h
    · split at h
      · exact .inl h
      · exact (enterPrefilled_tracked h).imp_right And.right
    · exact (enterStandard_tracked (r := p.orderRequest) hq h).imp_right And.right

/-- The books stay sound. -/
theorem processRecovered_sane (hq : 0 < p.quantity) (hsane : s.SaneBooks) (hfresh : s.Fresh id) :
    (s.processRecovered now' p id).SaneBooks := by
  unfold FeedService.processRecovered
  cases hs : s.manager.getSession p.sessionId with
  | none => exact hsane
  | some session =>
    have hsid : session.sessionId = p.sessionId := Table.key_of_get hs
    rw [← hsid] at hs
    dsimp only
    split
    · split
      · exact hsane
      · next q _ =>
        cases hb : session.bookForPrefilled p.tokenId with
        | none =>
          unfold FeedService.enterPrefilled
          rw [hb]
          exact hsane
        | some x => exact enterPrefilled_sane hs hsane (hfresh _ _) hb
    · cases hb : session.bookForOrder p.tokenId with
      | none =>
        unfold FeedService.enterStandard
        rw [hb]
        exact hsane
      | some x => exact enterStandard_sane hs hsane (hfresh _ _) hb hq

/-- A new session has new books. -/
theorem createSession_books {m : SessionManager} {tokens : Direction → Option String}
    {state : SessionState} {sid' : SessionId}
    (h : (m.createSession sid' tokens state).bookAt sid dir = some b) :
    m.bookAt sid dir = some b ∨ b.core = emptyCore := by
  rcases bookAt_createSession h with hold | ⟨token, rfl⟩
  · exact .inl hold
  · exact .inr rfl

theorem recoverOrder_books {m : SessionManager}
    (h : (recoverOrder m r now bo).1.bookAt sid dir = some b) :
    m.bookAt sid dir = some b ∨ b.core = emptyCore := by
  unfold recoverOrder at h
  split at h
  · exact .inl h
  · exact createSession_books h

theorem recoverOrder_payload {m : SessionManager} :
    (recoverOrder m r now bo).2 = bo.queuedPayload r now := by
  unfold recoverOrder BinaryOption.queuedPayload
  cases bo.recoveryTarget now r <;> rfl

/-- Recovery makes new sessions at most. -/
theorem recoverPendingOrders_books {m : SessionManager} {orders : List BinaryOption}
    (h : (recoverPendingOrders m r now orders).1.bookAt sid dir = some b) :
    m.bookAt sid dir = some b ∨ b.core = emptyCore := by
  unfold recoverPendingOrders at h
  refine List.foldlRecOn (motive := fun x : SessionManager × List RecoveryPayload =>
    ∀ b, x.1.bookAt sid dir = some b → m.bookAt sid dir = some b ∨ b.core = emptyCore)
    orders _ (fun _ h => .inl h) (fun x ih bo _ b hb => ?_) b h
  rcases recoverOrder_books hb with hb | hb
  · exact ih b hb
  · exact .inr hb

/-- The payloads that recovery queues. -/
theorem recoverPendingOrders_payloads {m : SessionManager} {orders : List BinaryOption} :
    (recoverPendingOrders m r now orders).2 = orders.filterMap fun bo =>
      bo.queuedPayload r now := by
  have hfold : ∀ x : SessionManager × List RecoveryPayload, (orders.foldl (fun acc bo =>
      let recovered := recoverOrder acc.1 r now bo
      (recovered.1, acc.2 ++ recovered.2.toList)) x).2 =
        x.2 ++ orders.filterMap fun bo => bo.queuedPayload r now := by
    induction orders with
    | nil => exact fun x => (List.append_nil _).symm
    | cons bo orders ih =>
      intro x
      rw [List.foldl_cons, ih]
      dsimp only
      rw [recoverOrder_payload, List.append_assoc]
      cases hp : bo.queuedPayload r now with
      | none => simp [hp]
      | some p => simp [hp]
  simpa [recoverPendingOrders] using hfold (m, [])

end

/-! ## Runs -/

/-- The service, and the payloads of recovery that are still queued. -/
structure Recovering where
  service : FeedService
  queued : List RecoveryPayload

/-- Whatever else the service does: work on its books, make sessions, and take orders of other
rows. -/
structure OtherWork (rows : List BinaryOption) (s s' : FeedService) : Prop where
  books : ∀ sid dir b', s'.manager.bookAt sid dir = some b' →
    Effects emptyCore b'.core ∨ ∃ b, s.manager.bookAt sid dir = some b ∧ Effects b.core b'.core
  orders : ∀ k v, s'.consumer.orderToBo.get? k = some v →
    s.consumer.orderToBo.get? k = some v ∨ ∀ bo ∈ rows, v ≠ bo.id

/-- The runs of a service that restarts without books, recovers the rows at `now` and takes the
payloads in any order, among other work. -/
inductive RecoveryRun (db : Database) (r : TokenRegistry) (now : Time) : Recovering → Prop
  | start {s : FeedService} (h : OtherWork db.orders.rows ⟨.empty, {}⟩ s) :
      RecoveryRun db r now ⟨{ s with
        manager := (recoverPendingOrders s.manager r now db.orders.rows).1 },
        (recoverPendingOrders s.manager r now db.orders.rows).2⟩
  | work {x : Recovering} {s : FeedService} (hrun : RecoveryRun db r now x)
      (h : OtherWork db.orders.rows x.service s) : RecoveryRun db r now ⟨s, x.queued⟩
  | take {s : FeedService} {pre post : List RecoveryPayload} {p : RecoveryPayload} (now' : Time)
      (id : OrderId) (hrun : RecoveryRun db r now ⟨s, pre ++ p :: post⟩) (hfresh : s.Fresh id) :
      RecoveryRun db r now ⟨s.processRecovered now' p id, pre ++ post⟩

/-- What recovery queued of the row, if anything, is still there. -/
def BinaryOption.Waits (bo : BinaryOption) (r : TokenRegistry) (now : Time)
    (queued : List RecoveryPayload) : Prop :=
  ∀ p ∈ bo.queuedPayload r now, p ∈ queued

section

variable {db : Database} {r : TokenRegistry} {now now' close : Time} {x : Recovering}
  {bo : BinaryOption} {id : OrderId} {s s' : FeedService}

/-- No order stands for a row whose payload is not taken yet. -/
structure RecoveryInv (db : Database) (r : TokenRegistry) (now : Time) (x : Recovering) : Prop where
  sane : x.service.SaneBooks
  nodup : (x.queued.map RecoveryPayload.boId).Nodup
  known : ∀ p ∈ x.queued, ∃ bo ∈ db.orders.rows, bo.queuedPayload r now = some p
  unseen : ∀ bo ∈ db.orders.rows, bo.Waits r now x.queued →
    ∀ k, x.service.consumer.orderToBo.get? k ≠ some bo.id

theorem OtherWork.sane {rows : List BinaryOption} (h : OtherWork rows s s') (hs : s.SaneBooks) :
    s'.SaneBooks := by
  intro sid dir b' hb'
  rcases h.books sid dir b' hb' with he | ⟨b, hb, he⟩
  · exact .of_empty he
  · exact (hs sid dir b hb).of_effects he

theorem OtherWork.unseen {rows : List BinaryOption} (h : OtherWork rows s s') (hbo : bo ∈ rows)
    (hs : ∀ k, s.consumer.orderToBo.get? k ≠ some bo.id) (k : OrderId) :
    s'.consumer.orderToBo.get? k ≠ some bo.id := by
  intro hk
  rcases h.orders k bo.id hk with hold | hother
  · exact hs k hold
  · exact hother bo hbo rfl

/-- Each row has at most one payload. -/
theorem queued_nodup : ((db.orders.rows.filterMap fun bo => bo.queuedPayload r now).map
    RecoveryPayload.boId).Nodup := by
  have hsub : ((db.orders.rows.filterMap fun bo => bo.queuedPayload r now).map
      RecoveryPayload.boId).Sublist (db.orders.rows.map BinaryOption.id) := by
    induction db.orders.rows with
    | nil => exact .slnil
    | cons bo rows ih =>
      cases hp : bo.queuedPayload r now with
      | none => simpa [hp] using ih.cons _
      | some p => simpa [hp, queuedPayload_boId hp] using ih
  exact db.orders.nodup.sublist hsub

/-- **The invariant of recovery.** -/
theorem recoveryInv_of_run (hsound : ∀ bo ∈ db.orders.rows, bo.Sound)
    (hrun : RecoveryRun db r now x) :
    RecoveryInv db r now x := by
  induction hrun with
  | start h =>
    have hempty : (⟨.empty, {}⟩ : FeedService).SaneBooks := fun _ _ _ hb => nomatch hb
    have hsane := h.sane hempty
    refine ⟨fun sid dir b hb => ?_, ?_, fun p hp => ?_, fun bo hbo _ k => ?_⟩
    · rcases recoverPendingOrders_books hb with hb | hb
      · exact hsane sid dir b hb
      · exact .of_empty (hb ▸ .refl)
    · rw [recoverPendingOrders_payloads]
      exact queued_nodup
    · rw [recoverPendingOrders_payloads] at hp
      exact List.mem_filterMap.mp hp
    · exact h.unseen hbo (fun _ hk => nomatch hk) k
  | work hrun h ih =>
    exact ⟨h.sane ih.sane, ih.nodup, ih.known,
      fun bo hbo hwaits => h.unseen hbo (ih.unseen bo hbo hwaits)⟩
  | @take s pre post p now' id hrun hfresh ih =>
    have hmem : p ∈ pre ++ p :: post := by simp
    have hleft : ∀ q ∈ pre ++ post, q ∈ pre ++ p :: post := by
      intro q hq
      rcases List.mem_append.mp hq with hq | hq <;> simp [hq]
    obtain ⟨bo', hbo', hp⟩ := ih.known p hmem
    have hq := quantity_pos_of_queued (hsound bo' hbo') hp
    have hnodup : (p.boId :: (pre ++ post).map RecoveryPayload.boId).Nodup := by
      have := ih.nodup
      rw [List.map_append, List.map_cons] at this
      simpa using (List.nodup_middle.mp this)
    refine ⟨processRecovered_sane hq ih.sane hfresh, (List.nodup_cons.mp hnodup).2,
      fun q hq => ih.known q (hleft q hq), fun bo hbo hwaits k hk => ?_⟩
    rcases processRecovered_tracked hq hk with hold | hnew
    · exact ih.unseen bo hbo (fun q hq => hleft q (hwaits q hq)) k hold
    · -- the payload that was taken is not the row's: that one still waits
      rw [queuedPayload_boId hp] at hnew
      have hsame : bo = bo' := by
        have hget := Table.get_of_mem hbo
        rw [hnew, Table.get_of_mem hbo'] at hget
        exact (Option.some.inj hget).symm
      subst hsame
      exact (List.nodup_cons.mp hnodup).1 (List.mem_map_of_mem (hwaits p hp))

/-- **Recovery restores a row** exactly when it has no open bracket and, if it is open, its session
takes it and it asks for what is left, in time. -/
theorem recovery_restores_iff (hrun : RecoveryRun db r now x)
    (hsound : ∀ bo ∈ db.orders.rows, bo.Sound) (hbo : bo ∈ db.orders.rows)
    (hclose : bo.settlementAt = some close) (hwaits : bo.Waits r now x.queued)
    (hfresh : x.service.Fresh id) :
    Restored (x.service.takeUp r now now' bo id) bo close ↔
      Recoverable x.service r now now' bo close := by
  have hinv := recoveryInv_of_run hsound hrun
  exact restored_takeUp_iff (hsound bo hbo) hclose hinv.sane hfresh (hinv.unseen bo hbo hwaits)

end

/-! ## On sample rows -/

/-- A passive LIMIT of twenty shares at `0.50` in the candle that closes at `1200`. -/
def waitingRow : BinaryOption where
  id := 1
  botName := "alpha"
  symbol := .btc
  timeframe := .m5
  forecast := .green
  amount := 10
  originalAmount := some 10
  limitPrice := some (1 / 2)
  settlementAt := some 1200
  createdAt := some 950
  meOrderStatus := some .pending

/-- Five of its shares were bought. -/
def partialRow : BinaryOption :=
  { waitingRow with avgPrice := some (1 / 2), numShares := some 5, meOrderStatus := some .partial_ }

def rowDb (bo : BinaryOption) : Database where
  bots := ⟨[oneBot], nodup_oneBot⟩
  orders := ⟨[bo], nodup_one bo⟩
  users := ⟨[], List.nodup_nil⟩

def upRegistry : TokenRegistry where
  mapping := fun c => if c = ⟨.btc, .m5, .up⟩ then some "up" else none

/-- The service that recovered the row at `1000`. -/
def recoveredService (bo : BinaryOption) : Recovering :=
  let recovered := recoverPendingOrders .empty upRegistry 1000 [bo]
  ⟨⟨recovered.1, {}⟩, recovered.2⟩

theorem run_recoveredService (bo : BinaryOption) :
    RecoveryRun (rowDb bo) upRegistry 1000 (recoveredService bo) :=
  .start (s := ⟨.empty, {}⟩) ⟨fun _ _ _ hb => (nomatch hb), fun _ _ hk => (nomatch hk)⟩

theorem fresh_recoveredService (bo : BinaryOption) (id : OrderId) :
    (recoveredService bo).service.Fresh id := by
  intro sid dir b hb h
  rcases recoverPendingOrders_books hb with hb | hb
  · cases hb
  · have hempty : b.history = [] := congrArg BookCore.history hb
    rw [hempty] at h
    cases h

theorem sound_waitingRow : waitingRow.Sound where
  amount := by norm_num [waitingRow]
  grid := by decide +kernel
  limit := by simp [waitingRow]; norm_num
  tp := by simp [waitingRow]
  sl := by simp [waitingRow]
  fill := rfl
  shares := by simp [waitingRow]
  pending := fun _ => rfl

theorem waits_recoveredService (bo : BinaryOption) :
    bo.Waits upRegistry 1000 (recoveredService bo).queued := by
  intro p hp
  change p ∈ (recoverPendingOrders .empty upRegistry 1000 [bo]).2
  rw [recoverPendingOrders_payloads]
  exact List.mem_filterMap.mpr ⟨bo, List.mem_singleton_self bo, hp⟩

/-- An order that is not filled is restored in its candle. -/
theorem recovery_restores_waitingRow :
    Restored
      ((recoveredService waitingRow).service.takeUp upRegistry 1000 1010 waitingRow 7) waitingRow
      1200 := by
  have hopen : 0 < waitingRow.openQuantity := by decide +kernel
  refine (recovery_restores_iff (run_recoveredService waitingRow) ?_ (List.mem_singleton_self _) rfl
    (waits_recoveredService waitingRow) (fresh_recoveredService waitingRow 7)).mpr
    ⟨rfl, fun _ => ⟨by decide +kernel, _, rfl⟩, fun _ => ?_, fun _ => ?_, fun h => absurd hopen h⟩
  · rintro bo hbo
    obtain rfl := List.mem_singleton.mp hbo
    exact sound_waitingRow
  · change ∀ limit ∈ some (1 / 2 : ℚ), round8 (10 / limit) = waitingRow.requestedQuantity
    decide +kernel
  · change candleExpireAt .m5 1010 ≤ 1200
    decide +kernel

/-- **A partial fill is queued in place of the rest**: five of twenty shares were bought, and after
the restart the engine has an order for five, not for fifteen. -/
theorem partial_fill_not_restored :
    RecoveryRun (rowDb partialRow) upRegistry 1000 (recoveredService partialRow) ∧
      partialRow.Waits upRegistry 1000 (recoveredService partialRow).queued ∧
      partialRow.openQuantity = 15 ∧
      ¬ Restored
        ((recoveredService partialRow).service.takeUp upRegistry 1000 1010 partialRow 7) partialRow
        1200 := by
  have hopen : partialRow.openQuantity = 15 := by decide +kernel
  refine ⟨run_recoveredService partialRow, waits_recoveredService partialRow, hopen, fun h => ?_⟩
  obtain ⟨b, hb, o, ho, hbuys⟩ := h.works (by rw [hopen]; norm_num)
  have hother : ∀ b ∈ ((recoveredService partialRow).service.takeUp upRegistry 1000 1010 partialRow
      7).manager.bookAt (partialRow.ownSession 1200) (FORECAST_TO_DIR partialRow.forecast),
      ∀ o ∈ b.virtualOrders,
        o.remainingQty ≠ partialRow.openQuantity - filledOf o.orderId b.history := by
    decide +kernel
  exact hother b hb o ho.mem hbuys.remaining

end PolyArena

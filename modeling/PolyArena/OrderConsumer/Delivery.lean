import PolyArena.OrderConsumer.Tracking

/-!
# What the stream says of an order

1. `fills_reported`: whenever nothing is pending, the last filled quantity published for a tracked
   order is the order's, in every run that drops no news of the order being registered.
2. `levels_exact`: the published levels are the fills the book executed, in every such run that also
   publishes no immediate fill.

Both conditions are needed.  A fill between the publication of the immediate fill and the
registration is dropped as one of an unknown order, and the seed then says it was reported.  The
levels of an immediate fill are drained when the placement collects its state changes, before the
consumer reads them.
-/

namespace PolyArena

open ShadowOrderbook OrderView

namespace Desk

/-- Whenever nothing is pending, the last filled quantity published for every tracked order is the
order's. -/
def FillsReported (d : Desk) : Prop :=
  d.Quiet → ∀ id ∈ d.standard, (d.consumer.orderToBo.get? id).isSome →
    ∀ o ∈ d.book.orderObject id, PolyArena.lastFilled id d.consumer.published = o.filled

/-- The published levels are the fills the book executed, up to the last published message: none is
missing, none is repeated, and the quantities add up to the published filled quantity. -/
def LevelsExact (d : Desk) : Prop :=
  ∀ id ∈ d.standard,
    publishedLevels id d.consumer.published <+: (entryFills id d.book.history).reverse ∧
      ((publishedLevels id d.consumer.published).map Prod.snd).sum =
        PolyArena.lastFilled id d.consumer.published

instance (d : Desk) : Decidable d.Quiet := inferInstanceAs (Decidable (_ ∧ _))

instance (d : Desk) : Decidable d.FillsReported :=
  inferInstanceAs (Decidable (d.Quiet → ∀ id ∈ d.standard,
    (d.consumer.orderToBo.get? id).isSome → ∀ o ∈ d.book.orderObject id,
      PolyArena.lastFilled id d.consumer.published = o.filled))

instance (d : Desk) : Decidable d.LevelsExact :=
  inferInstanceAs (Decidable (∀ id ∈ d.standard, _ ∧ _))

instance (d : Desk) (a : DeskAction) : Decidable (d.LosesFill a) :=
  inferInstanceAs (Decidable (∃ t ∈ d.task, t.prefilled = false ∧ t.stage.isRegistering ∧
    ∃ e ∈ d.droppedEvents a, e.isFillOf t.orderId ∧
      PolyArena.lastFilled t.orderId d.consumer.published < e.filled))

instance (d : Desk) : (a : DeskAction) → Decidable (d.PublishesFill a)
  | .consume => inferInstanceAs (Decidable (∃ t ∈ d.task, t.prefilled = false ∧
      t.stage = .publish ∧ ∃ o ∈ d.book.orderObject t.orderId, 0 < o.filled))
  | .place .. | .placePrefilled .. | .reject _ | .feedOp .. | .deliver =>
    inferInstanceAs (Decidable False)

/-! ## Sample runs -/

/-- An ask of `size` at `price`. -/
def offer (price size : ℚ) (h : 0 < price) : FeedOp :=
  .applyChanges [{ price := price, size := size, price_pos := h, side := .ask }]

/-- A BUY LIMIT of twenty shares at `0.50`. -/
def twentyShares : OrderRequest := { side := .buy, price := 1 / 2, quantity := 20 }

/-- The order is placed in an empty book and registered; then the feed fills it twice. -/
def fillAfterwards : List DeskAction :=
  [.place 0 1 7 twentyShares, .consume, .consume, .consume, .consume, .consume, .consume, .consume,
    .feedOp 1 (offer (2 / 5) 10 pos_two_fifths), .deliver, .feedOp 1 .runMatching,
      .deliver, .deliver,
    .feedOp 2 (offer (9 / 20) 5 pos_nine_twentieths), .deliver, .feedOp 2 .runMatching,
      .deliver, .deliver]

/-- The order is filled in part when it is placed. -/
def fillAtPlacement : List DeskAction :=
  [.feedOp 0 (offer (2 / 5) 10 pos_two_fifths), .deliver, .place 0 1 7 twentyShares, .consume,
    .consume, .consume]

/-- The feed then fills more of it before it is registered. -/
def fillInBetween : List DeskAction :=
  fillAtPlacement ++ [.feedOp 1 (offer (9 / 20) 5 pos_nine_twentieths), .deliver,
    .feedOp 1 .runMatching, .deliver, .consume, .consume, .consume, .consume]

/-! ## Runs -/

/-- Every run that drops no news is sound. -/
theorem sound_of_run {tokenId : String} {d : Desk}
    (h : Run step (fun d a => ¬ d.LosesFill a) (new tokenId) d) : Sound d :=
  h.invariant Sound (sound_new tokenId) fun _ _ _ hs hguard hstep => sound_step hs hstep hguard

/-- **No fill is lost** in a run that drops no news of the order being registered. -/
theorem fills_reported {tokenId : String} {d : Desk}
    (h : Run step (fun d a => ¬ d.LosesFill a) (new tokenId) d) : d.FillsReported := by
  intro hquiet id hid htracked o ho
  have hsound := sound_of_run h
  have hphase : (d.view id).phase = .tracked := if_pos htracked
  have hpending : (d.view id).pending = [] := by
    change d.feed.events.filter _ = []
    rw [hquiet.2]
    rfl
  have hcovered : (d.view id).lastFilled = (d.view id).filled := by
    rcases (hsound.views id hid).covered hphase with heq | hne
    · exact heq
    · exact absurd hpending hne
  calc PolyArena.lastFilled id d.consumer.published
      = (d.view id).filled := hcovered
    _ = filledOf id d.book.history := by simp [OrderView.filled, view, filledOf]
    _ = o.filled := (orderObject_filled hsound.inv.book ho).2.symm

theorem fills_reported_afterwards : ∃ d : Desk, ¬ d.consumer.published = [] ∧ d.FillsReported := by
  have hrun : (exec step (fun d a => ¬ d.LosesFill a) (new "T") fillAfterwards).any
      (fun d => ¬ d.consumer.published = []) = true := by decide +kernel
  obtain ⟨d, hd, hpub⟩ := Option.any_eq_true _ _ |>.mp hrun
  exact ⟨d, of_decide_eq_true hpub, fills_reported (run_of_exec hd)⟩

/-- A fill that happens before the order is registered is never published. -/
theorem drops_fill_in_between : ∃ d, Run step (fun _ _ => True) (new "T") d ∧
    ¬ d.FillsReported := by
  have hrun : (exec step (fun _ _ => True) (new "T") fillInBetween).any
      (fun d => ¬ d.FillsReported) = true := by decide +kernel
  obtain ⟨d, hd, hlost⟩ := Option.any_eq_true _ _ |>.mp hrun
  exact ⟨d, run_of_exec hd, of_decide_eq_true hlost⟩

/-- **The published levels are exact** in a run that drops no news and publishes no immediate
fill. -/
theorem levels_exact {tokenId : String} {d : Desk}
    (h : Run step (fun d a => ¬ d.LosesFill a ∧ ¬ d.PublishesFill a) (new tokenId) d) :
    d.LevelsExact := by
  have hinv := h.invariant (fun d => Sound d ∧ ∀ id ∈ d.standard, Exact (d.view id))
    ⟨sound_new tokenId, nofun⟩ fun d a d' hd hguard hstep => by
    obtain ⟨hsound, hexact⟩ := hd
    refine ⟨sound_step hsound hstep hguard.1, fun id hid => ?_⟩
    rcases (moves_of_step hsound hstep hguard.1 fun _ => hguard.2).2 id hid with
      ⟨hid', hm⟩ | ⟨fs, -, hview⟩
    · exact hm.exact (hsound.views id hid') (hexact id hid')
    · rw [hview]
      exact .initial fs
  exact fun id hid => ⟨(hinv.2 id hid).reported, (hinv.2 id hid).sum⟩

theorem levels_exact_afterwards :
    ∃ d : Desk, ¬ publishedLevels 7 d.consumer.published = [] ∧ d.LevelsExact := by
  have hrun : (exec step (fun d a => ¬ d.LosesFill a ∧ ¬ d.PublishesFill a) (new "T")
      fillAfterwards).any (fun d => ¬ publishedLevels 7 d.consumer.published = []) = true := by
    decide +kernel
  obtain ⟨d, hd, hpub⟩ := Option.any_eq_true _ _ |>.mp hrun
  exact ⟨d, of_decide_eq_true hpub, levels_exact (run_of_exec hd)⟩

/-- An immediate fill is published without its levels. -/
theorem drops_levels_at_placement :
    ∃ d, Run step (fun _ _ => True) (new "T") d ∧ ¬ d.LevelsExact := by
  have hrun : (exec step (fun _ _ => True) (new "T") fillAtPlacement).any
      (fun d => ¬ d.LevelsExact) = true := by decide +kernel
  obtain ⟨d, hd, hlost⟩ := Option.any_eq_true _ _ |>.mp hrun
  exact ⟨d, run_of_exec hd, of_decide_eq_true hlost⟩

end Desk

end PolyArena

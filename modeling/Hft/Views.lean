import Hft.RiskChecker

/-!
# Views and what stands behind them

Every entry point takes its symbols and ids as a `string_view` and hands `data()` to a C
function that looks for a NUL or for eight bytes, whichever comes first. The length of
the view is nowhere consulted. So a view of fewer than eight characters is read together
with whatever string follows it in memory, and two views with the same characters count
as the same argument exactly when that is the same.
-/

namespace Hft

open Logical

variable {left right : StringView}

/-- Two views that every entry point takes for the same argument, in every state. -/
structure ReadAlike (left right : StringView) : Prop where
  newOrderSym : ∀ side qty priceFp oid,
    makeNewOrder left side qty priceFp oid = makeNewOrder right side qty priceFp oid
  newOrderOid : ∀ sym side qty priceFp,
    makeNewOrder sym side qty priceFp left = makeNewOrder sym side qty priceFp right
  fillSym : ∀ side fqty fprice oid (isPartial : Bool),
    makeFill left side fqty fprice oid isPartial = makeFill right side fqty fprice oid isPartial
  fillOid : ∀ sym side fqty fprice (isPartial : Bool),
    makeFill sym side fqty fprice left isPartial = makeFill sym side fqty fprice right isPartial
  get : ∀ tracker : PositionTracker, tracker.get left = tracker.get right
  markToMarket : ∀ arith (tracker : PositionTracker) mktPriceFp,
    tracker.markToMarket arith left mktPriceFp = tracker.markToMarket arith right mktPriceFp
  find : ∀ orders : OrderManager, orders.find left = orders.find right
  openExposure : ∀ arith (orders : OrderManager),
    orders.openExposure arith left = orders.openExposure arith right
  check : ∀ arith limits side qty priceFp tracker orders,
    RiskChecker.check arith limits left side qty priceFp tracker orders =
      RiskChecker.check arith limits right side qty priceFp tracker orders
  checkTracker : ∀ arith limits side qty priceFp tracker,
    RiskChecker.checkTracker arith limits left side qty priceFp tracker =
      RiskChecker.checkTracker arith limits right side qty priceFp tracker

theorem openExposure_congr (same : fieldKey left = fieldKey right) (arith : Arithmetic)
    (orders : OrderManager) : orders.openExposure arith left = orders.openExposure arith right := by
  unfold OrderManager.openExposure
  congr 1
  funext exposure order
  have search : strncmp order.symbol.pointer left.data 8 ≠ 0 ↔
      strncmp order.symbol.pointer right.data 8 ≠ 0 := by
    rw [not_iff_not, strncmp_eq_zero_iff, strncmp_eq_zero_iff]
    exact Eq.congr_right same
  simp only [OrderManager.addExposure, search]

/-- The eight bytes that are read decide. -/
theorem readAlike_iff_fieldKey : ReadAlike left right ↔ fieldKey left = fieldKey right := by
  constructor
  · intro alike
    have built := congrArg OrderEvent.symbol (alike.newOrderSym .buy 0 0 left)
    have strings := congrArg CharArray.string built
    simp only [makeNewOrder, string_strncpy] at strings
    exact strings
  · intro same
    have copied : strncpy left.data 8 = strncpy right.data 8 := strncpy_congr same
    have get : ∀ tracker : PositionTracker, tracker.get left = tracker.get right := by
      intro tracker
      rw [PositionTracker.get_eq_find?, PositionTracker.get_eq_find?, same]
    constructor
    case newOrderSym => simp [makeNewOrder, copied]
    case newOrderOid => simp [makeNewOrder, copied]
    case fillSym => simp [makeFill, copied]
    case fillOid => simp [makeFill, copied]
    case get => exact get
    case markToMarket =>
      intro arith tracker mktPriceFp
      rw [PositionTracker.markToMarket, PositionTracker.markToMarket, same]
    case find =>
      intro orders
      rw [OrderManager.find_eq_find?, OrderManager.find_eq_find?, same]
    case openExposure => exact openExposure_congr same
    case check =>
      intro arith limits side qty priceFp tracker orders
      simp only [RiskChecker.check, PositionTracker.netQty, get, openExposure_congr same]
    case checkTracker =>
      intro arith limits side qty priceFp tracker
      simp only [RiskChecker.checkTracker, get]

/-- What a copied argument shows as a view of its field. -/
theorem chars_strncpy (view : StringView) :
    StringView.chars ⟨(strncpy view.data 8).pointer, strnlen (strncpy view.data 8).pointer 8⟩ =
      fieldKey view := by
  rw [StringView.chars_strnlen]
  exact string_strncpy view.data 8

/-- A built event shows the first eight characters of its symbol exactly when the view is that
long or a NUL follows it. -/
theorem fieldKey_eq_take_iff {view : StringView} (clean : view.Clean) :
    fieldKey view = view.chars.take 8 ↔ 8 ≤ view.size ∨ view.data view.size = 0 := by
  refine text_eq_take_chars_iff.trans ⟨fun ⟨_, ended⟩ => ?_, fun ended => ⟨?_, fun short => ?_⟩⟩
  · by_cases long : 8 ≤ view.size
    · exact .inl long
    · exact .inr (ended (by omega))
  · exact fun index below => clean index (by omega)
  · exact ended.resolve_left (by omega)

/-- Two views with the same characters are the same argument to every entry point exactly when
the memory behind them reads the same, up to the first NUL or the eighth byte. An event built
from a view shows its first eight characters exactly when the view has that many or is
terminated. -/
theorem views_read_alike_iff (same : left.chars = right.chars) (cleanLeft : left.Clean)
    (cleanRight : right.Clean) :
    (ReadAlike left right ↔
      text (8 - left.size) left.behind = text (8 - right.size) right.behind) ∧
    (∀ side qty priceFp oid,
      (makeNewOrder left side qty priceFp oid).symbolView.chars = left.chars.take 8 ↔
        8 ≤ left.size ∨ left.data left.size = 0) ∧
    ∀ side fqty fprice oid (isPartial : Bool),
      (makeFill left side fqty fprice oid isPartial).symbolView.chars = left.chars.take 8 ↔
        8 ≤ left.size ∨ left.data left.size = 0 := by
  have shown := fieldKey_eq_take_iff cleanLeft
  rw [← chars_strncpy] at shown
  refine ⟨?_, fun _ _ _ _ => shown, fun _ _ _ _ _ => shown⟩
  rw [readAlike_iff_fieldKey, fieldKey, fieldKey, StringView.text_data cleanLeft,
    StringView.text_data cleanRight, same]
  exact List.append_right_inj _

/-- The first characters of a longer buffer. -/
def slice (buffer : String) (size : Nat) : StringView := ⟨Pointer.ofList (ascii buffer), size⟩

/-- Eight characters are read alike wherever they stand. -/
theorem views_read_alike_eight : ReadAlike (slice "AAPLMSFT" 8) (slice "AAPLMSFTX" 8) := by
  have clean : (slice "AAPLMSFT" 8).Clean := by
    unfold StringView.Clean
    decide
  have clean' : (slice "AAPLMSFTX" 8).Clean := by
    unfold StringView.Clean
    decide
  exact (views_read_alike_iff (by decide) clean clean').1.mpr (by decide)

/-- Four characters are read together with a fifth behind them. -/
theorem read_past_four : ¬∀ left right : StringView, left.chars = right.chars →
    left.Clean → right.Clean → ReadAlike left right := by
  intro always
  have clean : (slice "AAPL" 4).Clean := by
    unfold StringView.Clean
    decide
  have clean' : (slice "AAPLX" 4).Clean := by
    unfold StringView.Clean
    decide
  have keys := readAlike_iff_fieldKey.mp (always _ _ (by decide) clean clean')
  exact absurd keys (by decide)

end Hft

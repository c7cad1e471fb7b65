import TradingLoad.Http.Api
import TradingLoad.Investor.State
import TradingLoad.Proofs.Json.Members
import TradingLoad.Proofs.Json.Rereading

namespace TradingLoad

open JsonValue

variable {names : List String} {before after : List (JsonText × JsonValue)} {name : String}
  {r again : Fields JsonValue} {info : InfoSnapshot}

/-- Members of an object of which those of some names are written anew: as a list without items, as
`null`, or not at all. -/
structure Respells (names : List String) (before after : List (JsonText × JsonValue)) : Prop where
  others : ∀ name, (∀ s ∈ names, name ≠ some s) → valuesOf name after = valuesOf name before
  anew : ∀ s ∈ names, valuesOf (some s) after ∈ [[], [.array []], [.null]]

namespace Fields

variable {α : Type} {read : JsonValue → Option α} {fallback : α}

theorem required_congr (same : again.get? name = r.get? name) :
    again.required name read = r.required name read := by
  rw [required, required, same]

theorem defaulted_congr (same : again.get? name = r.get? name) :
    again.defaulted name fallback read = r.defaulted name fallback read := by
  rw [defaulted, defaulted, same]

end Fields

namespace Respells

variable (respells : Respells names before after)
include respells

theorem hasFields {known : List String} (apart : HasFields known before) :
    HasFields known after := by
  constructor
  · rw [respells.others none fun s _ same => nomatch same]
    exact apart.texts
  · intro name listed
    by_cases anew : name ∈ names
    · have written := respells.anew name anew
      simp only [List.mem_cons, List.not_mem_nil, or_false] at written
      rcases written with missing | empty | null
      · simp [missing]
      · simp [empty]
      · simp [null]
    · rw [respells.others (some name) fun s mem same => anew (Option.some.inj same ▸ mem)]
      exact apart.once name listed

variable {known : List String} (foundAgain : fieldsOfMembers? known after = some again)
include foundAgain

theorem get?_of_notMem (found : fieldsOfMembers? known before = some r) (listed : name ∈ known)
    (kept : name ∉ names) : again.get? name = r.get? name := by
  rw [get?_of_fields foundAgain listed, get?_of_fields found listed,
    respells.others (some name) fun s mem same => kept (Option.some.inj same ▸ mem)]

theorem get?_of_mem (listed : name ∈ known) (anew : name ∈ names) :
    again.get? name = none ∨ again.get? name = some (.array []) ∨
      again.get? name = some .null ∧ valuesOf (some name) after = [.null] := by
  have written := respells.anew name anew
  rw [get?_of_fields foundAgain listed]
  simp only [List.mem_cons, List.not_mem_nil, or_false] at written
  rcases written with missing | empty | null
  · simp [missing]
  · simp [empty]
  · simp [null]

/-- A list is read again as it was, unless it is written as `null`. -/
theorem list_again {α : Type} {read : JsonValue → Option α} {items : List α}
    (found : fieldsOfMembers? known before = some r) (listed : name ∈ known)
    (shown : valuesOf (some name) after ≠ [.null]) (empty : name ∈ names → items = [])
    (reads : r.defaulted name [] (list? read) = some items) :
    again.defaulted name [] (list? read) = some items := by
  by_cases anew : name ∈ names
  · rw [empty anew]
    unfold Fields.defaulted
    rcases respells.get?_of_mem foundAgain listed anew with missing | written | ⟨-, null⟩
    · rw [missing]
    · rw [written]
      rfl
    · exact absurd null shown
  · have same := respells.get?_of_notMem foundAgain found listed anew
    exact (Fields.defaulted_congr same).trans reads

end Respells

namespace InfoSnapshot

def chartNames : List String := ["chart_by_sec", "chart_by_min", "chart_by_hour"]

/-- What each field of a snapshot is read from. -/
structure Reads (r : Fields JsonValue) (info : InfoSnapshot) : Prop where
  cursor : r.required "cursor" int? = some info.cursor
  tradedOrders : r.defaulted "traded_orders" none (option? (list? Order.ofJson?)) =
    some info.tradedOrders
  lowestSellPrice : r.defaulted "lowest_sell_price" 0 int? = some info.lowestSellPrice
  highestBuyPrice : r.defaulted "highest_buy_price" 0 int? = some info.highestBuyPrice
  chartBySecond :
    r.defaulted "chart_by_sec" [] (list? Candlestick.ofJson?) = some info.chartBySecond
  chartByMinute :
    r.defaulted "chart_by_min" [] (list? Candlestick.ofJson?) = some info.chartByMinute
  chartByHour : r.defaulted "chart_by_hour" [] (list? Candlestick.ofJson?) = some info.chartByHour
  enableShare : r.defaulted "enable_share" false bool? = some info.enableShare

theorem ofJson?_eq_some_iff {v : JsonValue} :
    ofJson? v = some info ↔ ∃ r, v.fields? fieldNames = some r ∧ Reads r info := by
  unfold ofJson?
  simp only [bind, pure, Option.bind_eq_some_iff, Option.some.injEq]
  constructor
  · rintro ⟨r, fields, _, cursor, _, orders, _, lowest, _, highest, _, seconds, _, minutes, _,
      hours, _, share, rfl⟩
    exact ⟨r, fields, cursor, orders, lowest, highest, seconds, minutes, hours, share⟩
  · rintro ⟨r, fields, reads⟩
    exact ⟨r, fields, _, reads.cursor, _, reads.tradedOrders, _, reads.lowestSellPrice, _,
      reads.highestBuyPrice, _, reads.chartBySecond, _, reads.chartByMinute, _,
      reads.chartByHour, _, reads.enableShare, rfl⟩

/-- The names are those of lists that have no items in the snapshot. -/
structure HasEmpty (info : InfoSnapshot) (names : List String) : Prop where
  lists : ∀ name ∈ names, name ∈ "traded_orders" :: chartNames
  tradedOrders : "traded_orders" ∈ names → info.hasTradedOrders = false
  chartBySecond : "chart_by_sec" ∈ names → info.chartBySecond = []
  chartByMinute : "chart_by_min" ∈ names → info.chartByMinute = []
  chartByHour : "chart_by_hour" ∈ names → info.chartByHour = []

theorem orders_again (respells : Respells names before after)
    (found : fieldsOfMembers? fieldNames before = some r)
    (foundAgain : fieldsOfMembers? fieldNames after = some again) (reads : Reads r info)
    (empty : info.HasEmpty names) :
    ∃ orders, again.defaulted "traded_orders" none (option? (list? Order.ofJson?)) = some orders ∧
      hasTradedOrders { info with tradedOrders := orders } = info.hasTradedOrders := by
  have listed : "traded_orders" ∈ fieldNames := by decide
  by_cases anew : "traded_orders" ∈ names
  · rw [empty.tradedOrders anew]
    -- no list at all is read from two of the spellings, and one without items from the third
    unfold Fields.defaulted
    rcases respells.get?_of_mem foundAgain listed anew with missing | written | ⟨null, -⟩
    · rw [missing]
      exact ⟨_, rfl, rfl⟩
    · rw [written]
      exact ⟨_, rfl, rfl⟩
    · rw [null]
      exact ⟨_, rfl, rfl⟩
  · have same := respells.get?_of_notMem foundAgain found listed anew
    exact ⟨info.tradedOrders, (Fields.defaulted_congr same).trans reads.tradedOrders, rfl⟩

/-- Some chart is written as `null`. -/
def HasNullChart (members : List (JsonText × JsonValue)) : Prop :=
  ∃ chart ∈ chartNames, valuesOf (some chart) members = [.null]

theorem ofJson?_of_hasNullChart (null : HasNullChart after) : ofJson? (.object after) = none := by
  rw [Option.eq_none_iff_forall_ne_some]
  intro info accepted
  obtain ⟨r, found, reads⟩ := ofJson?_eq_some_iff.mp accepted
  obtain ⟨chart, mem, null⟩ := null
  have listed : ∀ chart ∈ chartNames, chart ∈ fieldNames := by decide
  have written : r.get? chart = some .null := by
    rw [get?_of_fields found (listed chart mem), null]
    rfl
  have refused : r.defaulted chart [] (list? Candlestick.ofJson?) = none := by
    unfold Fields.defaulted
    rw [written]
    rfl
  simp only [chartNames, List.mem_cons, List.not_mem_nil, or_false] at mem
  rcases mem with rfl | rfl | rfl
  · exact absurd (refused.symm.trans reads.chartBySecond) (Option.some_ne_none _).symm
  · exact absurd (refused.symm.trans reads.chartByMinute) (Option.some_ne_none _).symm
  · exact absurd (refused.symm.trans reads.chartByHour) (Option.some_ne_none _).symm

/-- Without a chart that is `null`, only the spelling of an empty list of orders shows. -/
theorem ofJson?_again (respells : Respells names before after)
    (accepted : ofJson? (.object before) = some info) (empty : info.HasEmpty names)
    (shown : ¬ HasNullChart after) :
    ∃ orders, ofJson? (.object after) = some { info with tradedOrders := orders } ∧
      hasTradedOrders { info with tradedOrders := orders } = info.hasTradedOrders := by
  obtain ⟨r, found, reads⟩ := ofJson?_eq_some_iff.mp accepted
  obtain ⟨again, foundAgain⟩ := exists_fields_iff.mpr
    (respells.hasFields (exists_fields_iff.mp ⟨r, found⟩))
  obtain ⟨orders, ordersAgain, traded⟩ := orders_again respells found foundAgain reads empty
  have others : ∀ name ∈ ["cursor", "lowest_sell_price", "highest_buy_price", "enable_share"],
      again.get? name = r.get? name := by
    intro name mem
    have known : ∀ name ∈ ["cursor", "lowest_sell_price", "highest_buy_price", "enable_share"],
        name ∈ fieldNames ∧ name ∉ "traded_orders" :: chartNames := by decide
    obtain ⟨listed, other⟩ := known name mem
    exact respells.get?_of_notMem foundAgain found listed fun anew => other (empty.lists name anew)
  have charts : ∀ chart ∈ chartNames,
      chart ∈ fieldNames ∧ valuesOf (some chart) after ≠ [.null] := by
    intro chart mem
    have listed : ∀ chart ∈ chartNames, chart ∈ fieldNames := by decide
    exact ⟨listed chart mem, fun null => shown ⟨chart, mem, null⟩⟩
  have chart_again {chart : String} {candles : List Candlestick} (mem : chart ∈ chartNames)
      (none : chart ∈ names → candles = [])
      (written : r.defaulted chart [] (list? Candlestick.ofJson?) = some candles) :
      again.defaulted chart [] (list? Candlestick.ofJson?) = some candles := by
    obtain ⟨listed, shown⟩ := charts chart mem
    exact respells.list_again foundAgain found listed shown none written
  refine ⟨orders, ofJson?_eq_some_iff.mpr ⟨again, foundAgain, ?_⟩, traded⟩
  constructor
  case tradedOrders => exact ordersAgain
  case chartBySecond => exact chart_again (by decide) empty.chartBySecond reads.chartBySecond
  case chartByMinute => exact chart_again (by decide) empty.chartByMinute reads.chartByMinute
  case chartByHour => exact chart_again (by decide) empty.chartByHour reads.chartByHour
  case cursor => exact (Fields.required_congr (others _ (by decide))).trans reads.cursor
  case lowestSellPrice =>
    exact (Fields.defaulted_congr (others _ (by decide))).trans reads.lowestSellPrice
  case highestBuyPrice =>
    exact (Fields.defaulted_congr (others _ (by decide))).trans reads.highestBuyPrice
  case enableShare => exact (Fields.defaulted_congr (others _ (by decide))).trans reads.enableShare

end InfoSnapshot

namespace Http.Session

/-- The body of a response is an object with some members. -/
def HasMembers (a : Response) (members : List (JsonText × JsonValue)) : Prop :=
  ∃ body, a.text = .ok body ∧ JsonValue.parse? body = some (.object members)

theorem replyOf_info {a : Response} {members : List (JsonText × JsonValue)} (now : Timestamp)
    (cursor : Int) (has : HasMembers a members) :
    replyOf now (.info cursor) a =
      match InfoSnapshot.ofJson? (.object members) with
      | some info => .ok info
      | none => .error (.malformed "the body of the response is not what it should be") := by
  obtain ⟨body, text, parsed⟩ := has
  have read : (JsonValue.parse? body).bind InfoSnapshot.ofJson? =
      InfoSnapshot.ofJson? (.object members) := by
    rw [parsed]
    rfl
  change decode InfoSnapshot.ofJson? a = _
  unfold decode
  rw [text]
  simp only [bind, Except.bind]
  rw [read]
  cases InfoSnapshot.ofJson? (.object members) <;> rfl

/-- A snapshot of which some empty lists are written anew comes to the same: its cursor and prices
are the same, and it changes the view of the market and the whole investor, with the queue of its
tasks, in the same way. That is unless a chart is written as `null`: then the reply is a failure. -/
theorem empty_lists_respelled {a b : Response} (now : Timestamp) (cursor : Int)
    (has : HasMembers a before) (hasAgain : HasMembers b after)
    (respells : Respells names before after) (accepted : replyOf now (.info cursor) a = .ok info)
    (empty : info.HasEmpty names) :
    (¬ InfoSnapshot.HasNullChart after → ∃ again : InfoSnapshot,
      replyOf now (.info cursor) b = .ok again ∧
      again.cursor = info.cursor ∧ again.lowestSellPrice = info.lowestSellPrice ∧
      again.highestBuyPrice = info.highestBuyPrice ∧
      again.hasTradedOrders = info.hasTradedOrders ∧
      again.latestTradePrice = info.latestTradePrice ∧
      (∀ view : MarketView, view.apply again = view.apply info) ∧
      ∀ (inv : Investor) (clock : Nat), inv.observe clock again = inv.observe clock info) ∧
    (InfoSnapshot.HasNullChart after → replyOf now (.info cursor) b =
      .error (.malformed "the body of the response is not what it should be")) := by
  rw [replyOf_info now cursor has] at accepted
  rw [replyOf_info now cursor hasAgain]
  split at accepted
  · next snapshot read =>
    obtain rfl := Except.ok.inj accepted
    constructor
    · intro shown
      obtain ⟨orders, readAgain, traded⟩ := InfoSnapshot.ofJson?_again respells read empty shown
      rw [readAgain]
      refine ⟨_, rfl, rfl, rfl, rfl, traded, rfl, fun view => rfl, ?_⟩
      intro inv clock
      unfold Investor.observe
      rw [traded]
      rfl
    · intro null
      rw [InfoSnapshot.ofJson?_of_hasNullChart null]
  · cases accepted

/-- A response with an object for its body. -/
def saying (members : List (JsonText × JsonValue)) : Response :=
  { status := 200, headers := [], body := Text.utf8 (JsonValue.object members).write
    isComplete := true }

theorem hasMembers_saying (text : (saying members).text = .ok (JsonValue.object members).render) :
    HasMembers (saying members) members :=
  ⟨_, text, parse?_render _⟩

def cursorOnly : InfoSnapshot := ⟨1, none, 0, 0, [], [], [], false⟩

def emptyChart : List (JsonText × JsonValue) :=
  [(some "cursor", .ofInt 1), (some "chart_by_sec", .array [])]

def nullChart : List (JsonText × JsonValue) :=
  [(some "cursor", .ofInt 1), (some "chart_by_sec", .null)]

/-- A chart without candles may be written as a list without items, but not as `null`. -/
theorem null_chart_refused :
    HasMembers (saying emptyChart) emptyChart ∧ HasMembers (saying nullChart) nullChart ∧
      Respells ["chart_by_sec"] emptyChart nullChart ∧ cursorOnly.HasEmpty ["chart_by_sec"] ∧
      replyOf .epoch (.info 0) (saying emptyChart) = .ok cursorOnly ∧
      replyOf .epoch (.info 0) (saying nullChart) =
        .error (.malformed "the body of the response is not what it should be") := by
  have has : HasMembers (saying emptyChart) emptyChart := hasMembers_saying (by decide +kernel)
  have hasAgain : HasMembers (saying nullChart) nullChart := hasMembers_saying (by decide +kernel)
  have read : InfoSnapshot.ofJson? (.object emptyChart) = some cursorOnly := by decide +kernel
  have refused : InfoSnapshot.ofJson? (.object nullChart) = none := by decide +kernel
  refine ⟨has, hasAgain, ⟨?_, ?_⟩, ⟨by decide, by decide, by decide, by decide, by decide⟩, ?_, ?_⟩
  · intro name other
    have shown : some "chart_by_sec" ≠ name := (other _ List.mem_cons_self).symm
    simp [valuesOf, emptyChart, nullChart, List.filter_cons, shown]
  · intro s mem
    obtain rfl := List.mem_singleton.mp mem
    simp [valuesOf, nullChart]
  · rw [replyOf_info _ _ has, read]
  · rw [replyOf_info _ _ hasAgain, refused]

def emptyLists : List (JsonText × JsonValue) :=
  [(some "cursor", .ofInt 1), (some "traded_orders", .array []), (some "chart_by_hour", .array [])]

def nullOrders : List (JsonText × JsonValue) :=
  [(some "traded_orders", .null), (some "cursor", .ofInt 1)]

/-- A list of orders that becomes `null` and a chart that is left out change nothing. -/
theorem null_orders_observed_alike :
    HasMembers (saying emptyLists) emptyLists ∧ HasMembers (saying nullOrders) nullOrders ∧
      Respells ["traded_orders", "chart_by_hour"] emptyLists nullOrders ∧
      replyOf .epoch (.info 0) (saying emptyLists) =
        .ok { cursorOnly with tradedOrders := some [] } ∧
      InfoSnapshot.HasEmpty { cursorOnly with tradedOrders := some [] }
        ["traded_orders", "chart_by_hour"] ∧
      ¬ InfoSnapshot.HasNullChart nullOrders ∧
      ∃ again, replyOf .epoch (.info 0) (saying nullOrders) = .ok again ∧
        ∀ (inv : Investor) (clock : Nat), inv.observe clock again =
          inv.observe clock { cursorOnly with tradedOrders := some [] } := by
  have has : HasMembers (saying emptyLists) emptyLists := hasMembers_saying (by decide +kernel)
  have hasAgain : HasMembers (saying nullOrders) nullOrders := hasMembers_saying (by decide +kernel)
  have read : InfoSnapshot.ofJson? (.object emptyLists) =
      some { cursorOnly with tradedOrders := some [] } := by decide +kernel
  have accepted : replyOf .epoch (.info 0) (saying emptyLists) =
      .ok { cursorOnly with tradedOrders := some [] } := by
    rw [replyOf_info _ _ has, read]
  have respells : Respells ["traded_orders", "chart_by_hour"] emptyLists nullOrders := by
    constructor
    · intro name other
      have orders : some "traded_orders" ≠ name := (other _ (by simp)).symm
      have chart : some "chart_by_hour" ≠ name := (other _ (by simp)).symm
      simp [valuesOf, emptyLists, nullOrders, List.filter_cons, orders, chart]
    · intro s mem
      rcases List.mem_pair.mp mem with rfl | rfl
      · simp [valuesOf, nullOrders]
      · simp [valuesOf, nullOrders]
  have empty : InfoSnapshot.HasEmpty { cursorOnly with tradedOrders := some [] }
      ["traded_orders", "chart_by_hour"] :=
    ⟨by decide, by decide, by decide, by decide, by decide⟩
  have shown : ¬ InfoSnapshot.HasNullChart nullOrders := by
    simp [InfoSnapshot.HasNullChart, InfoSnapshot.chartNames, valuesOf, nullOrders]
  obtain ⟨again, reply, -, -, -, -, -, -, observed⟩ :=
    (empty_lists_respelled .epoch 0 has hasAgain respells accepted empty).1 shown
  exact ⟨has, hasAgain, respells, accepted, empty, shown, again, reply, observed⟩

end Http.Session

end TradingLoad

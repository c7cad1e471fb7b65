import TradingLoad.Exchange.Scripted
import TradingLoad.Proofs.Concurrent.Exclusion
import TradingLoad.Proofs.Run.Agenda

namespace TradingLoad

def Call.isPoll : Call → Bool
  | .info _ => true
  | _ => false

/-- The snapshot in a reply. -/
def snapshotOf : (c : Call) → c.Reply → Option InfoSnapshot
  | .info _, .ok info => some info
  | _, _ => none

namespace InfoSnapshot

/-- The cursor of the last snapshot; 0 before any. -/
def lastCursor (infos : List InfoSnapshot) : Int := (infos.head?.map cursor).getD 0

def lastLowestSell (infos : List InfoSnapshot) : Int := (infos.head?.map lowestSellPrice).getD 0

def lastHighestBuy (infos : List InfoSnapshot) : Int := (infos.head?.map highestBuyPrice).getD 0

/-- The close of the last hourly candle of the last snapshot that has any; 0 if none has. -/
def lastClose (infos : List InfoSnapshot) : Int :=
  (((infos.find? fun info => !info.chartByHour.isEmpty).bind fun info =>
    info.chartByHour.getLast?).map Candlestick.closing).getD 0

theorem lastClose_cons (info : InfoSnapshot) (infos : List InfoSnapshot) :
    lastClose (info :: infos) = info.latestTradePrice.getD (lastClose infos) := by
  unfold lastClose latestTradePrice
  cases hc : info.chartByHour with
  | nil => simp [hc]
  | cons candle candles =>
    have last := List.getLast?_eq_some_getLast (List.cons_ne_nil candle candles)
    simp [hc, last]

end InfoSnapshot

/-- A fold over the snapshots is made of the last prices. -/
theorem MarketView.ofSnapshots_reverse (infos : List InfoSnapshot) :
    ofSnapshots infos.reverse =
      ⟨InfoSnapshot.lastLowestSell infos, InfoSnapshot.lastHighestBuy infos,
        InfoSnapshot.lastClose infos⟩ := by
  induction infos with
  | nil => rfl
  | cons info infos ih =>
    have last : ofSnapshots (info :: infos).reverse = (ofSnapshots infos.reverse).apply info := by
      simp only [ofSnapshots, List.reverse_cons, List.foldl_append, List.foldl_cons,
        List.foldl_nil]
    rw [last, ih, apply, InfoSnapshot.lastClose_cons]
    rfl

namespace Investor

variable {inv inv' : Investor}

theorem view_of_new {account : String} {profile : InvestorProfile} {rewards : Rewards}
    {timing : Timing} {source : Random.Stream}
    (h : new account profile rewards timing source = .ok inv) :
    inv.polling = .initial ∧ inv.market = .unknown := by
  obtain ⟨-, rfl⟩ := new_eq_ok_iff.mp h
  exact ⟨rfl, rfl⟩

theorem cursor_of_begin {retired : Bool} {now : Nat} {task : Task} {k : Int}
    (h : inv.begin retired now task = .ok (inv', .ask (.info k))) : k = inv.polling.cursor := by
  obtain rfl : task = .info := (begin_eq_ask h).2
  by_cases early : retired || !inv.polling.isDue now
  · simp [begin, early] at h
  · obtain ⟨-, same⟩ : inv = inv' ∧ inv.polling.cursor = k := by simpa [begin, early] using h
    exact same.symm

theorem view_begin {retired : Bool} {now : Nat} {task : Task} {o : Opening}
    (h : inv.begin retired now task = .ok (inv', o)) :
    inv'.polling = inv.polling ∧ inv'.market = inv.market := by
  obtain ⟨trader, pending, rfl⟩ := begin_eq_ok h
  exact ⟨rfl, rfl⟩

/-- Only decisions queue anything without a call. -/
theorem queued_begin {retired : Bool} {now : Nat} {task : Task} {o : Opening}
    (h : inv.begin retired now task = .ok (inv', o)) :
    inv'.pending = inv.pending ∨
      task = .decision ∧ ∃ d, inv'.pending = inv.pending ++ followUps d := by
  cases o with
  | ask c =>
    rw [(begin_eq_ask h).1]
    exact .inl rfl
  | done score =>
    obtain ⟨-, rfl | ⟨rfl, hd⟩⟩ := begin_eq_done h
    · exact .inl rfl
    · obtain rfl | ⟨s, d, trader, -, -, rfl⟩ := decide_eq_ok hd
      · exact .inl rfl
      · exact .inr ⟨rfl, d, rfl⟩

/-- With every order task a decision queues one reconciliation. -/
theorem count_followUps (d : Decision) :
    (followUps d).count .updateOrders = (followUps d).countP Task.isOrder := by
  cases d <;> rfl

variable (inv : Investor) (now : Nat) (at_ : Timestamp)

theorem view_receive (c : Call) (r : c.Reply) :
    (inv.receive now at_ c r).1.polling.cursor =
        ((snapshotOf c r).map InfoSnapshot.cursor).getD inv.polling.cursor ∧
      (inv.receive now at_ c r).1.market = (snapshotOf c r).elim inv.market inv.market.apply := by
  cases c with
  | info cursor =>
    cases r with
    | error failure => exact ⟨rfl, rfl⟩
    | ok info =>
      simp only [receive, observe]
      split <;> exact ⟨rfl, rfl⟩
  | _ => cases r <;> exact ⟨rfl, rfl⟩

theorem queued_receive (c : Call) (r : c.Reply) :
    (inv.receive now at_ c r).1.pending = inv.pending ++
      List.replicate ((snapshotOf c r).toList.countP InfoSnapshot.hasTradedOrders)
        .updateOrders := by
  have one : ∀ info : InfoSnapshot, (if info.hasTradedOrders then [Task.updateOrders] else []) =
      List.replicate ([info].countP InfoSnapshot.hasTradedOrders) .updateOrders := by
    intro info
    rw [List.countP_singleton]
    split <;> rfl
  rw [pending_receive]
  congr 1
  cases c with
  | info cursor =>
    cases r with
    | error failure => rfl
    | ok info => exact one info
  | _ => cases r <;> rfl

end Investor

namespace Concurrent

variable {σ : Type} {env : Environment σ} {stirs : σ → σ → Prop} {s t : Concurrent σ}
  {history : List Event}

def Event.snapshot? : Event → Option InfoSnapshot
  | .entered _ _ _ _ _ => none
  | .answered _ _ _ c r => snapshotOf c r

/-- The snapshots that polls have brought, the latest first. -/
def snapshots (history : List Event) : List InfoSnapshot := history.filterMap Event.snapshot?

theorem snapshots_append (event : Option Event) (history : List Event) :
    snapshots (event.toList ++ history) =
      (event.bind Event.snapshot?).toList ++ snapshots history := by
  cases event with
  | none => rfl
  | some event => cases h : event.snapshot? <;> simp [snapshots, h]

/-- Cursor, market and queue are what the snapshots have made of them. -/
structure Observed (history : List Event) (s : Concurrent σ) : Prop where
  cursor : s.world.investor.polling.cursor = InfoSnapshot.lastCursor (snapshots history)
  market : s.world.investor.market = .ofSnapshots (snapshots history).reverse
  queue : s.world.investor.pending.count .updateOrders =
    (snapshots history).countP InfoSnapshot.hasTradedOrders +
      s.world.investor.pending.countP Task.isOrder

theorem observed_step {event : Option Event} (h : Step env stirs s event t)
    (ho : Observed history s) : Observed (event.toList ++ history) t := by
  obtain ⟨cursor, market, queue⟩ := ho
  have change := investor_of_step h
  cases event with
  | none =>
    have same : t.world.investor = s.world.investor := change
    rw [Option.toList_none, List.nil_append]
    exact ⟨by rw [same]; exact cursor, by rw [same]; exact market, by rw [same]; exact queue⟩
  | some event =>
    cases event with
    | entered job task now glance call =>
      have quiet : snapshots ((some (Event.entered job task now glance call)).toList ++ history) =
          snapshots history := snapshots_append _ _
      obtain same | ⟨opening, hb⟩ := change
      · exact ⟨by rw [same, quiet]; exact cursor, by rw [same, quiet]; exact market,
          by rw [same, quiet]; exact queue⟩
      · obtain ⟨polling, view⟩ := Investor.view_begin hb
        refine ⟨by rw [polling, quiet]; exact cursor, by rw [view, quiet]; exact market, ?_⟩
        rw [quiet]
        obtain same | ⟨-, d, queued⟩ := Investor.queued_begin hb
        · rw [same]
          exact queue
        · have both := Investor.count_followUps d
          rw [queued, List.count_append, List.countP_append]
          omega
    | answered job now at_ c r =>
      have received : t.world.investor = (s.world.investor.receive now at_ c r).1 := change
      obtain ⟨polling, view⟩ := s.world.investor.view_receive now at_ c r
      have queued := s.world.investor.queued_receive now at_ c r
      have seen : snapshots ((some (Event.answered job now at_ c r)).toList ++ history) =
          (snapshotOf c r).toList ++ snapshots history := snapshots_append _ _
      rw [← received] at polling view queued
      refine ⟨?_, ?_, ?_⟩
      · rw [polling, seen, cursor]
        cases snapshotOf c r <;> rfl
      · rw [view, seen, market]
        cases snapshotOf c r with
        | none => rfl
        | some info => simp [MarketView.ofSnapshots]
      · rw [queued, seen, List.count_append, List.countP_append, List.countP_append,
          List.count_replicate_self]
        have none : (List.replicate ((snapshotOf c r).toList.countP InfoSnapshot.hasTradedOrders)
            Task.updateOrders).countP Task.isOrder = 0 := by
          simp [List.countP_replicate, Task.isOrder]
        omega

theorem observed_of_runs {account : String} {profile : InvestorProfile} {rewards : Rewards}
    {timing : Timing} {source : Random.Stream} {w : World σ} {tasks : List Task}
    (made : Investor.new account profile rewards timing source = .ok w.investor)
    (run : Runs env stirs w tasks history s) : Observed history s := by
  obtain ⟨polling, market⟩ := Investor.view_of_new made
  obtain ⟨-, pending, -⟩ := Investor.new_eq_ok made
  induction run with
  | refl => exact ⟨congrArg Polling.cursor polling, market, by simp [new, pending, snapshots]⟩
  | step before last ih => exact observed_step last ih

/-- Without decisions nothing is queued but reconciliations, one for every report of trades. -/
theorem queue_of_runs {w : World σ} {tasks : List Task} (empty : w.investor.pending = [])
    (run : Runs env stirs w tasks history s) (polls : .decision ∉ tasks) :
    s.world.investor.pending =
      List.replicate ((snapshots history).countP InfoSnapshot.hasTradedOrders) .updateOrders := by
  induction run with
  | refl => exact empty
  | @step history event t u before last ih =>
    have change := investor_of_step last
    cases event with
    | none =>
      have same : u.world.investor = t.world.investor := change
      rw [same]
      exact ih
    | some event =>
      rw [snapshots_append]
      cases event with
      | entered job task now glance call =>
        obtain same | ⟨opening, hb⟩ := change
        · rw [same]
          exact ih
        · obtain same | ⟨rfl, -⟩ := Investor.queued_begin hb
          · rw [same]
            exact ih
          · obtain ⟨-, -, -, -, v, enters, -⟩ := enters_of_step last
            obtain ⟨stage, here, -⟩ := enters.here
            exact absurd (List.mem_of_getElem? (task_of_runs before here)) polls
      | answered job now at_ c r =>
        have received : u.world.investor = (t.world.investor.receive now at_ c r).1 := change
        rw [received, Investor.queued_receive, ih, List.countP_append, ← List.replicate_add,
          Nat.add_comm]
        rfl

/-- A poll starts at the cursor that is kept. -/
theorem cursor_of_poll {i now : Nat} {task : Task} {glance : Glance} {k : Int}
    (h : Step env stirs s (some (.entered i task now glance (some (.info k)))) t) :
    k = s.world.investor.polling.cursor := by
  obtain ⟨-, -, -, calls, -⟩ := enters_of_step h
  obtain ⟨inv, hb⟩ := World.callOf_eq_some.mp calls.symm
  exact Investor.cursor_of_begin hb

theorem countP_isPoll_le (run : s.Guarded) : s.inFlight.countP Call.isPoll ≤ 1 := by
  have one := run.countP_inFlight_le .polling
  have same : (fun c : Call => decide (c.task.region = some .polling)) = Call.isPoll := by
    funext c
    cases c <;> rfl
  rwa [same] at one

/-- Polls do not overlap. Each one starts at the cursor of the snapshot before it, the market is
seen through the last snapshots, and a reconciliation is queued for every snapshot that reports
trades, and with every order task of a decision, and for nothing else. -/
theorem polls_chained {account : String} {profile : InvestorProfile} {rewards : Rewards}
    {timing : Timing} {source : Random.Stream} {w : World σ} {tasks : List Task}
    (made : Investor.new account profile rewards timing source = .ok w.investor)
    (run : Runs env stirs w tasks history s) :
    let infos := snapshots history
    s.inFlight.countP Call.isPoll ≤ 1 ∧
      (∀ later earlier i task now glance k,
        history = later ++ .entered i task now glance (some (.info k)) :: earlier →
          k = InfoSnapshot.lastCursor (snapshots earlier)) ∧
      s.world.investor.market = ⟨InfoSnapshot.lastLowestSell infos,
        InfoSnapshot.lastHighestBuy infos, InfoSnapshot.lastClose infos⟩ ∧
      s.world.investor.pending.count .updateOrders =
        infos.countP InfoSnapshot.hasTradedOrders +
          s.world.investor.pending.countP Task.isOrder ∧
      (.decision ∉ tasks → s.world.investor.pending =
        List.replicate (infos.countP InfoSnapshot.hasTradedOrders) .updateOrders) := by
  intro infos
  have observed := observed_of_runs made run
  have empty : w.investor.pending = [] := (Investor.new_eq_ok made).2.1
  refine ⟨countP_isPoll_le (guarded_of_runs run), ?_, ?_, observed.queue, queue_of_runs empty run⟩
  · intro later earlier i task now glance k split
    rw [split] at run
    obtain ⟨u, v, before, poll, -⟩ := Steps.split run
    rw [cursor_of_poll poll]
    exact (observed_of_runs made before).cursor
  · rw [observed.market, MarketView.ofSnapshots_reverse]

/-- Polls at any moment. -/
def unpacedPolls : Timing := { Timing.standard with pollingIntervalMs := 0, signupJitterMs := 0 }

/-- An exchange that fails at the first poll and reports a trade at the second one. -/
def reportsAtSecondPoll : ScriptedExchange :=
  ScriptedExchange.initial.changeAll
    [.orders [.placed 1 .buy 5 100 ScriptedExchange.openingTime], .settle 1 100, .book 110 90,
      .canned .info [.error (.status 500 "internal error")]]

/-- The latest event is a poll that starts at cursor 1, before any time has passed. -/
def isPollFromOne : List Event → Bool
  | .entered _ task now _ (some (.info k)) :: _ => decide ((task, now, k) = (.info, 0, 1))
  | _ => false

/-- A poll that fails, one that reports a trade, and one that starts behind it. -/
theorem polls_chained_past_failure :
    ∃ inv history s i glance later earlier,
      Investor.new "investor" ⟨500, 0, 5, 100, 1⟩ .standard unpacedPolls (.ofSeed 0) = .ok inv ∧
      Runs Course.scripted (fun _ _ => False) (.new inv reportsAtSecondPoll) [.info, .info, .info]
        history s ∧
      history = later ++ .entered i .info 0 glance (some (.info 1)) :: earlier ∧
      1 = InfoSnapshot.lastCursor (snapshots earlier) ∧
      s.world.investor.market = ⟨110, 90, 100⟩ ∧ s.world.investor.pending = [.updateOrders] := by
  have rehearsal : (rehearse Course.scripted ⟨500, 0, 5, 100, 1⟩ unpacedPolls reportsAtSecondPoll
      [.info, .info, .info] [.go 0, .go 0, .go 1, .go 1, .go 2]).any fun r =>
        decide ((snapshots r.1).countP InfoSnapshot.hasTradedOrders = 1) &&
        decide (InfoSnapshot.lastLowestSell (snapshots r.1) = 110 ∧
          InfoSnapshot.lastHighestBuy (snapshots r.1) = 90 ∧
          InfoSnapshot.lastClose (snapshots r.1) = 100) &&
        isPollFromOne r.1 := by decide
  obtain ⟨inv, history, s, hi, run, found⟩ := exists_run_of_rehearse (fun _ _ => False) rehearsal
  simp only [Bool.and_eq_true, decide_eq_true_eq] at found
  obtain ⟨⟨trades, ask, bid, close⟩, third⟩ := found
  obtain ⟨-, chained, market, -, queue⟩ := polls_chained hi run
  rw [ask, bid, close] at market
  rw [trades] at queue
  unfold isPollFromOne at third
  split at third
  · next _ i task now glance k earlier =>
    simp only [decide_eq_true_eq, Prod.mk.injEq] at third
    obtain ⟨rfl, rfl, rfl⟩ := third
    exact ⟨inv, _, s, i, glance, [], earlier, hi, run, rfl,
      chained [] earlier i .info 0 glance 1 rfl, market, queue (by decide)⟩
  · cases third

end Concurrent

end TradingLoad

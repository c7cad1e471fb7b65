import TradingLoad.Exchange.Scripted
import TradingLoad.Proofs.Concurrent.Exclusion
import TradingLoad.Proofs.Run.Course

namespace TradingLoad

namespace Concurrent

variable {σ : Type} {env : Environment σ} {stirs : σ → σ → Prop} {s t : Concurrent σ}

theorem timing_of_step {event : Option Event} (h : Step env stirs s event t) :
    t.world.investor.timing = s.world.investor.timing :=
  kept_of_step Investor.timing_begin Investor.timing_receive h

theorem timing_of_steps {history : List Event} (h : Steps env stirs s history t) :
    t.world.investor.timing = s.world.investor.timing :=
  kept_of_steps Investor.timing_begin Investor.timing_receive h

/-- A snapshot has come, and no poll is due until an interval later. -/
def Paced (s : Concurrent σ) (moment : Nat) : Prop :=
  ∃ due, s.world.investor.polling.nextPollAt = some due ∧
    moment + s.world.investor.timing.pollingIntervalMs ≤ due

/-- A later snapshot only moves the next poll to a later time. -/
theorem Paced.step {event : Option Event} (h : Step env stirs s event t) {moment : Nat}
    (past : moment ≤ s.world.now) (paced : s.Paced moment) : t.Paced moment := by
  obtain ⟨due, next, apart⟩ := paced
  have change := investor_of_step h
  have timing := timing_of_step h
  cases event with
  | none => exact ⟨due, by rw [change, next], by rw [timing]; exact apart⟩
  | some event =>
    cases event with
    | entered job task now glance call =>
      refine ⟨due, ?_, by rw [timing]; exact apart⟩
      obtain same | ⟨opening, hb⟩ := change
      · rw [same, next]
      · obtain ⟨trader, pending, hi⟩ := Investor.begin_eq_ok hb
        rw [hi]
        exact next
    | answered job now at_ c r =>
      obtain ⟨-, rfl, -⟩ := settles_of_step h
      have received : t.world.investor = _ := change
      have pace := Investor.nextPollAt_receive s.world.investor s.world.now at_ c r
      rw [← received] at pace
      unfold Paced
      rw [pace, timing]
      split
      · exact ⟨_, rfl, by omega⟩
      · exact ⟨due, next, apart⟩

theorem paced_of_snapshot {job now : Nat} {at_ : Timestamp} {cursor : Int} {info : InfoSnapshot}
    (h : Step env stirs s (some (.answered job now at_ (.info cursor) (.ok info))) t) :
    t.Paced now := by
  have received : t.world.investor = _ := investor_of_step h
  have pace := Investor.nextPollAt_receive s.world.investor now at_ (.info cursor) (.ok info)
  rw [← received] at pace
  refine ⟨_, pace, ?_⟩
  rw [timing_of_step h]

theorem paced_of_steps {history : List Event} (h : Steps env stirs s history t) {job now : Nat}
    {at_ : Timestamp} {cursor : Int} {info : InfoSnapshot}
    (mem : .answered job now at_ (.info cursor) (.ok info) ∈ history) : t.Paced now := by
  induction h with
  | refl => simp at mem
  | @step history event t u before last ih =>
    obtain mem | mem := List.mem_append.mp mem
    · obtain rfl : event = some _ := Option.mem_toList.mp mem
      exact paced_of_snapshot last
    · have past := (moments_of_steps before).2 _ mem
      exact (ih mem).step last past

/-- A poll is made when it is due, and not before. -/
theorem Paced.le_of_poll {i now moment : Nat} {task : Task} {glance : Glance} {cursor : Int}
    (paced : s.Paced moment)
    (h : Step env stirs s (some (.entered i task now glance (some (.info cursor)))) t) :
    moment + s.world.investor.timing.pollingIntervalMs ≤ now := by
  obtain ⟨due, next, apart⟩ := paced
  obtain ⟨-, rfl, -, calls, -⟩ := enters_of_step h
  obtain ⟨inv, hb⟩ := World.callOf_eq_some.mp calls.symm
  obtain rfl : task = .info := (Investor.begin_eq_ask hb).2
  have come := Investor.isDue_of_begin_info hb
  simp only [Polling.isDue, next, decide_eq_true_eq] at come
  omega

/-- A poll is not made before the one before it has been answered. -/
theorem answered_before_poll {middle : List Event} {u v : Concurrent σ} {i j : Nat} {task : Task}
    {due : Option Nat} {now : Nat} {glance : Glance} {k₁ k₂ : Int} (hg : u.Guarded)
    (before : Steps env stirs t middle u)
    (asking : t.jobs[i]? = some ⟨task, .asking (.info k₁) due⟩) (own : task = .info)
    (h : Step env stirs u (some (.entered j .info now glance (some (.info k₂)))) v) :
    ∃ now' at_ r, .answered i now' at_ (.info k₁) r ∈ middle := by
  obtain still | answered := asking_or_answered before asking
  · obtain ⟨-, -, -, -, u', enters, -⟩ := enters_of_step h
    have alone := hg.alone enters still rfl
    rw [own] at alone
    exact absurd rfl alone
  · exact answered

/-- Polls do not overlap, and they are an interval apart unless every poll from the earlier one up
to the later one has failed. -/
theorem polls_apart_or_failed {w : World σ} {tasks : List Task} {i j t₁ t₂ : Nat}
    {task₁ task₂ : Task} {g₁ g₂ : Glance} {k₁ k₂ : Int} (later middle earlier : List Event)
    (run : Runs env stirs w tasks
      (later ++ .entered j task₂ t₂ g₂ (some (.info k₂)) ::
        (middle ++ .entered i task₁ t₁ g₁ (some (.info k₁)) :: earlier)) s) :
    t₁ + w.investor.timing.pollingIntervalMs ≤ t₂ ∨
      (∃ t at_ failure, .answered i t at_ (.info k₁) (.error failure) ∈ middle) ∧
        ∀ i' t at_ k r, .answered i' t at_ (.info k) r ∈ middle →
          ∃ failure, r = .error failure := by
  obtain ⟨u, u', before, second, -⟩ := Steps.split run
  obtain ⟨v, v', start, first, between⟩ := Steps.split before
  obtain ⟨own, due, asking⟩ := asking_of_step first
  have guarded : u.Guarded := guarded_of_runs before
  have timing : u.world.investor.timing = w.investor.timing := timing_of_steps before
  obtain ⟨-, rfl, -⟩ := enters_of_step first
  have later_than : ∀ e ∈ middle, v.world.now ≤ e.moment := by
    intro e mem
    have sorted := (List.pairwise_append.mp (moments_of_steps before).1).2.2
    exact sorted e mem _ List.mem_cons_self
  have apart : ∀ i' t at_ k info, .answered i' t at_ (.info k) (.ok info) ∈ middle →
      v.world.now + w.investor.timing.pollingIntervalMs ≤ t₂ := by
    intro i' t at_ k info mem
    have pace := (paced_of_steps between mem).le_of_poll second
    have ordered : v.world.now ≤ t := later_than _ mem
    rw [timing] at pace
    omega
  obtain rfl : task₂ = .info := (asking_of_step second).1
  obtain ⟨t, at_, r, answered⟩ := answered_before_poll guarded between asking own second
  by_cases failed : ∀ i' t at_ k r, .answered i' t at_ (.info k) r ∈ middle →
      ∃ failure, r = .error failure
  · right
    obtain ⟨failure, rfl⟩ := failed i t at_ k₁ r answered
    exact ⟨⟨t, at_, failure, answered⟩, failed⟩
  · left
    push Not at failed
    obtain ⟨i', t, at_, k, r, mem, succeeded⟩ := failed
    cases r with
    | error failure => exact absurd rfl (succeeded failure)
    | ok info => exact apart i' t at_ k info mem

/-- The moments of the polls in a history, the latest first. -/
def pollMoments (history : List Event) : List Nat :=
  history.filterMap fun
    | .entered _ _ now _ (some (.info _)) => some now
    | _ => none

/-- Any two polls of a history are an interval apart. -/
def PollsApart (interval : Nat) (history : List Event) : Prop :=
  (pollMoments history).Pairwise fun later earlier => earlier + interval ≤ later

instance (interval : Nat) (history : List Event) : Decidable (PollsApart interval history) := by
  unfold PollsApart
  infer_instance

/-- One poll every minute. -/
def minutely : Timing := { Timing.standard with pollingIntervalMs := 60000, signupJitterMs := 0 }

/-- An exchange that fails at the first poll. -/
def failsAtFirstPoll : ScriptedExchange :=
  ScriptedExchange.initial.change (.canned .info [.error (.status 500 "internal error")])

/-- One task polls and is answered at once, and the other one polls after a minute. -/
def isPollAfterMinute : List Event → Bool
  | [.entered j task₂ t₂ _ (some (.info k₂)), .answered i' t _ (.info _) (.ok _),
      .entered i task₁ t₁ _ (some (.info k₁))] =>
    decide ((j, task₂, t₂, k₂) = (1, .info, 60000, 1) ∧ (i', t) = (0, 0) ∧
      (i, task₁, t₁, k₁) = (0, .info, 0, 0))
  | _ => false

/-- A poll, its snapshot, and a poll a minute later. -/
theorem polls_apart_after_a_minute :
    ∃ inv s g₁ g₂ at_ k info,
      Investor.new "investor" ⟨500, 0, 5, 100, 1⟩ .standard minutely (.ofSeed 0) = .ok inv ∧
      Runs Course.scripted (fun _ _ => False) (.new inv .initial) [.info, .info]
        [.entered 1 .info 60000 g₂ (some (.info 1)), .answered 0 0 at_ (.info k) (.ok info),
          .entered 0 .info 0 g₁ (some (.info 0))] s ∧
      0 + inv.timing.pollingIntervalMs ≤ 60000 := by
  have rehearsal : (rehearse Course.scripted ⟨500, 0, 5, 100, 1⟩ minutely .initial [.info, .info]
      [.go 0, .go 0, .pass 60000, .go 1]).any fun r =>
        isPollAfterMinute r.1 := by decide
  obtain ⟨inv, history, s, hi, run, found⟩ := exists_run_of_rehearse (fun _ _ => False) rehearsal
  unfold isPollAfterMinute at found
  split at found
  · next j task₂ t₂ g₂ k₂ i' t at_ k info i task₁ t₁ g₁ k₁ shape =>
    simp only [decide_eq_true_eq, Prod.mk.injEq] at found
    obtain ⟨⟨rfl, rfl, rfl, rfl⟩, ⟨rfl, rfl⟩, rfl, rfl, rfl, rfl⟩ := found
    obtain rfl : history = _ := shape
    refine ⟨inv, s, g₁, g₂, at_, k, info, hi, run, ?_⟩
    obtain apart | ⟨-, failed⟩ := polls_apart_or_failed [] [_] [] run
    · exact apart
    · obtain ⟨failure, succeeded⟩ := failed 0 0 at_ k (.ok info) (List.mem_singleton_self _)
      cases succeeded
  · simp at found

/-- A poll fails, and the next one follows at once. -/
theorem polls_together_after_failure :
    ∃ inv history s,
      Investor.new "investor" ⟨500, 0, 5, 100, 1⟩ .standard minutely (.ofSeed 0) = .ok inv ∧
      Runs Course.scripted (fun _ _ => False) (.new inv failsAtFirstPoll) [.info, .info]
        history s ∧
      pollMoments history = [0, 0] ∧ ¬ PollsApart inv.timing.pollingIntervalMs history := by
  have rehearsal : (rehearse Course.scripted ⟨500, 0, 5, 100, 1⟩ minutely failsAtFirstPoll
      [.info, .info] [.go 0, .go 0, .go 1]).any fun r =>
        decide (pollMoments r.1 = [0, 0]) := by decide
  obtain ⟨inv, history, s, hi, run, found⟩ := exists_run_of_rehearse (fun _ _ => False) rehearsal
  have moments : pollMoments history = [0, 0] := of_decide_eq_true found
  refine ⟨inv, history, s, hi, run, moments, ?_⟩
  unfold PollsApart
  rw [moments, Investor.timing_of_new hi]
  decide

end Concurrent

end TradingLoad

import TradingLoad.Proofs.Http.Retirement
import TradingLoad.Proofs.Ledger.Sums

namespace TradingLoad.Http

/-- The answer of the call is in the body of the response. -/
def readsBody : Call → Bool
  | .info _ => true
  | .getOrders => true
  | .addOrder _ _ _ => true
  | _ => false

/-- A response of success to a call that reads its body, of which not all has come. -/
def losesBody (c : Call) : Delivery → Bool
  | .error _ => false
  | .ok a => readsBody c && a.isSuccess && !a.isBodiless && !a.isComplete

/-- The result is a failure for want of an answer. -/
def failsInTransport {α : Type} : Except Failure α → Bool
  | .error failure => failure.isTransport
  | .ok _ => false

section Reading

variable {α : Type} {a : Response} {now : Timestamp} {c : Call}

theorem failsInTransport_bind {β : Type} {x : Except Failure α} {f : α → Except Failure β}
    (sound : ∀ v, failsInTransport (f v) = false) :
    failsInTransport (x >>= f) = failsInTransport x := by
  cases x with
  | error failure => rfl
  | ok v => exact sound v

theorem failsInTransport_text (a : Response) :
    failsInTransport a.text = (!a.isBodiless && !a.isComplete) := by
  unfold Response.text
  cases a.isBodiless <;> cases a.isComplete <;> rfl

/-- A body that has come and is not what it should be is no failure in transport. -/
theorem failsInTransport_decode (read : JsonValue → Option α) (a : Response) :
    failsInTransport (Session.decode read a) = failsInTransport a.text := by
  unfold Session.decode
  apply failsInTransport_bind
  intro body
  split <;> rfl

theorem failsInTransport_acceptedOf (side : Side) (amount price : Int) (now : Timestamp)
    (a : Response) :
    failsInTransport (Session.acceptedOf side amount price now a) = failsInTransport a.text := by
  unfold Session.acceptedOf
  rw [failsInTransport_bind, failsInTransport_decode]
  intro accepted
  split <;> rfl

theorem failsInTransport_replyOf (now : Timestamp) (c : Call) (a : Response) :
    failsInTransport (Session.replyOf now c a) =
      (readsBody c && !a.isBodiless && !a.isComplete) := by
  cases c with
  | top | signup | signin | deleteOrder => rfl
  | info => exact (failsInTransport_decode _ a).trans (failsInTransport_text a)
  | getOrders => exact (failsInTransport_decode _ a).trans (failsInTransport_text a)
  | addOrder => exact (failsInTransport_acceptedOf _ _ _ _ a).trans (failsInTransport_text a)

end Reading

namespace Session

variable {ν : Type} {net : Network ν} {s : Session} {c : Call} {r : Request}

theorem failsInTransport_requestOf (s : Session) (c : Call) :
    failsInTransport (s.requestOf c) = false := by
  have endpoint : failsInTransport (s.endpoint (route c)) = false := by
    unfold Session.endpoint
    split <;> rfl
  unfold requestOf
  rw [failsInTransport_bind fun _ => rfl]
  exact endpoint

theorem failsInTransport_call_of_error {failure : Failure} (net : Network ν) (now : Timestamp)
    (x : ν) (unmade : s.requestOf c = .error failure) :
    failsInTransport (s.call net now c x).1 = false := by
  have other := failsInTransport_requestOf s c
  rw [unmade] at other
  unfold call
  rw [unmade]
  exact other

theorem reply_call (net : Network ν) (now : Timestamp) (x : ν) (made : s.requestOf c = .ok r) :
    (s.call net now c x).1 = successOf (s.deliveryOf net r x) >>= replyOf now c := by
  have sent : (s.send net r x).1 = successOf (s.deliveryOf net r x) := rfl
  unfold call
  rw [made, ← sent]
  simp only
  rcases s.send net r x with ⟨failure | a, s', x'⟩ <;> rfl

/-- A call fails in transport if its request has no response, or if its response loses its body. -/
theorem failsInTransport_call (net : Network ν) (now : Timestamp) (x : ν)
    (made : s.requestOf c = .ok r) :
    failsInTransport (s.call net now c x).1 =
      ((Sign.ofDelivery (s.deliveryOf net r x)).isSilence ||
        losesBody c (s.deliveryOf net r x)) := by
  rw [reply_call net now x made]
  cases s.deliveryOf net r x with
  | error cause => rfl
  | ok a =>
    cases success : a.isSuccess with
    | true =>
      have granted : successOf (.ok a) >>= replyOf now c = replyOf now c a := by
        simp [successOf, success, bind, Except.bind]
      rw [granted, failsInTransport_replyOf]
      simp [Sign.ofDelivery, Sign.isSilence, losesBody, success]
    | false =>
      have refused : successOf (.ok a) = .error (.status a.status (reportOf a)) :=
        if_neg (by simp [success])
      rw [refused]
      simp [Sign.ofDelivery, Sign.isSilence, losesBody, success, bind, Except.bind,
        failsInTransport, Failure.isTransport]

/-- How a call ends, as far as the connection is concerned. -/
structure Ending where
  /-- The call fails for want of an answer. -/
  isTransport : Bool
  /-- One request more counts as being without a response. -/
  isCounted : Bool
  losesBody : Bool
  deriving DecidableEq, Repr

def endingOfCall (net : Network ν) (p : Session × ν) (now : Timestamp) (c : Call) : Ending where
  isTransport := failsInTransport (p.1.call net now c p.2).1
  isCounted := (use net p (.call now c)).1.health.failures = p.1.health.failures + 1
  losesBody :=
    match p.1.requestOf c with
    | .error _ => false
    | .ok r => Http.losesBody c (p.1.deliveryOf net r p.2)

/-- How a use ends; nothing if it is no call. -/
def endingOf (net : Network ν) (p : Session × ν) : Use → Option Ending
  | .call now c => some (endingOfCall net p now c)
  | .retire => none

/-- How the calls among some uses end, the first one first. -/
def endings (net : Network ν) (p : Session × ν) : List Use → List Ending
  | [] => []
  | u :: uses => (endingOf net p u).toList ++ endings net (use net p u) uses

/-- A call that fails in transport is counted, or else it has lost the body of its response. -/
structure Ending.IsSound (e : Ending) : Prop where
  transport : e.isTransport ↔ e.isCounted ∨ e.losesBody
  apart : ¬ (e.isCounted ∧ e.losesBody)

variable {p : Session × ν} {u : Use} {uses : List Use} {e : Ending}

theorem health_call_of_error {failure : Failure} (now : Timestamp)
    (unmade : p.1.requestOf c = .error failure) :
    (use net p (.call now c)).1.health = p.1.health := by
  rw [health_use]
  simp [signOf, unmade]

theorem health_call (now : Timestamp) (made : p.1.requestOf c = .ok r) :
    (use net p (.call now c)).1.health =
      p.1.health.note p.1.limit (.ofDelivery (p.1.deliveryOf net r p.2)) := by
  rw [health_use]
  simp [signOf, made]

theorem isSound_endingOfCall (net : Network ν) (p : Session × ν) (now : Timestamp) (c : Call) :
    (endingOfCall net p now c).IsSound := by
  unfold endingOfCall
  cases made : p.1.requestOf c with
  | error failure =>
    have transport := failsInTransport_call_of_error net now p.2 made
    have health : (use net p (.call now c)).1.health = p.1.health := health_call_of_error now made
    constructor <;> simp [transport, health]
  | ok r =>
    have transport := failsInTransport_call net now p.2 made
    have health : (use net p (.call now c)).1.health = _ := health_call now made
    cases delivery : p.1.deliveryOf net r p.2 with
    | error cause =>
      rw [delivery] at health transport
      constructor <;> simp [delivery, transport, health, Sign.ofDelivery, Sign.isSilence,
        Http.losesBody, Health.note]
    | ok a =>
      rw [delivery] at health transport
      constructor <;> simp [delivery, transport, health, Sign.ofDelivery, Sign.isSilence,
        Health.note]

theorem isCounted_iff {now : Timestamp} : (endingOfCall net p now c).isCounted = true ↔
    (use net p (.call now c)).1.health.failures = p.1.health.failures + 1 := by
  simp only [endingOfCall, decide_eq_true_eq]

theorem isSound_of_endingOf (ends : endingOf net p u = some e) : e.IsSound := by
  cases u with
  | retire => cases ends
  | call now c =>
    rw [← Option.some.inj ends]
    exact isSound_endingOfCall net p now c

theorem isSound_of_mem_endings (mem : e ∈ endings net p uses) : e.IsSound := by
  induction uses generalizing p with
  | nil => cases mem
  | cons u uses ih =>
    rcases List.mem_append.mp mem with here | later
    · exact isSound_of_endingOf (Option.mem_toList.mp here)
    · exact ih later

theorem failures_use_le (p : Session × ν) (u : Use) :
    (use net p u).1.health.failures ≤ p.1.health.failures + 1 := by
  rw [health_use]
  cases signOf net p u with
  | none => exact Nat.le_succ _
  | some sign => cases sign <;> simp [Health.note]

theorem failures_useAll_le (p : Session × ν) (uses : List Use) :
    (useAll net p uses).1.health.failures ≤ p.1.health.failures + uses.length := by
  induction uses generalizing p with
  | nil => exact Nat.le_refl _
  | cons u uses ih =>
    have rest : (useAll net p (u :: uses)).1.health.failures ≤ _ := ih (use net p u)
    have first : (use net p u).1.health.failures ≤ _ := failures_use_le p u
    rw [List.length_cons]
    omega

/-- Calls that fail in transport, of which none loses a body, are counted one by one. -/
theorem failures_of_endings
    (fail : ∀ e ∈ endings net p uses, e.isTransport = true ∧ e.losesBody = false) :
    (useAll net p uses).1.health.failures =
      p.1.health.failures + (endings net p uses).length := by
  induction uses generalizing p with
  | nil => rfl
  | cons u uses ih =>
    rw [endings, List.forall_mem_append] at fail
    obtain ⟨here, later⟩ := fail
    have rest : (useAll net p (u :: uses)).1.health.failures = _ := ih later
    rw [rest, endings, List.length_append]
    cases u with
    -- to retire a session is no call, and counts nothing
    | retire => simp [endingOf, use, retire]
    | call now c =>
      obtain ⟨transport, whole⟩ := here (endingOfCall net p now c) (by simp [endingOf])
      have sound := isSound_endingOfCall net p now c
      have counted : (endingOfCall net p now c).isCounted = true := by
        refine (sound.transport.mp transport).resolve_right ?_
        rw [whole]
        exact Bool.false_ne_true
      rw [isCounted_iff] at counted
      rw [counted]
      simp only [endingOf, Option.toList_some, List.length_singleton]
      omega

theorem health_of_new {target : Target} {credentials : Credentials}
    (made : Session.new target credentials = .ok s) :
    s.health = .fresh ∧ s.limit = target.maxTransportFailures := by
  unfold Session.new at made
  split at made
  · cases made
  · obtain rfl := Except.ok.inj made
    exact ⟨rfl, rfl⟩

/-- A session whose count has come to its limit is retired. -/
theorem retired_of_limit_le {target : Target} {credentials : Credentials} {x : ν}
    (made : Session.new target credentials = .ok s) (limited : 0 < target.maxTransportFailures)
    (full : target.maxTransportFailures ≤ (useAll net (s, x) uses).1.health.failures) :
    (useAll net (s, x) uses).1.health.retired = true := by
  obtain ⟨unknown, limit⟩ := health_of_new made
  have told : (useAll net (s, x) uses).1.health =
      .ofSigns target.maxTransportFailures (signs net (s, x) uses ++ []) :=
    health_useAll uses unknown limit
  rw [told] at full ⊢
  rw [Health.failures_ofSigns] at full
  exact (Health.retired_ofSigns _ _).mpr (.inr ⟨limited, Sign.hasSilence_sinceResponse full⟩)

/-- A call fails in transport exactly if it is counted, or has lost the body of its response, which
is never both. So the two agree for calls in a row exactly if none of them loses a body, and then so
many of them as the limit allows retire the session. The count is one of 32 bits as long as there
are fewer uses than that. -/
theorem transport_counted_unless_body_lost {target : Target} {credentials : Credentials}
    (made : Session.new target credentials = .ok s) (net : Network ν) (x : ν)
    (before row : List Use) (few : (before ++ row).length < 0x100000000) :
    let p := useAll net (s, x) before
    let health := (useAll net p row).1.health
    health.failures < 0x100000000 ∧
    (∀ e ∈ endings net p row, (e.isTransport = true ↔ e.isCounted = true ∨ e.losesBody = true) ∧
      ¬ (e.isCounted = true ∧ e.losesBody = true)) ∧
    ((∀ e ∈ endings net p row, (e.isTransport = true ↔ e.isCounted = true)) ↔
      ∀ e ∈ endings net p row, e.losesBody = false) ∧
    (0 < target.maxTransportFailures →
      target.maxTransportFailures ≤ (endings net p row).length →
      (∀ e ∈ endings net p row, e.isTransport = true ∧ e.losesBody = false) →
      health.retired = true) := by
  intro p health
  have joined : useAll net p row = useAll net (s, x) (before ++ row) := by
    simp only [p, useAll, List.foldl_append]
  refine ⟨?_, ?_, ?_, ?_⟩
  · have most : (useAll net (s, x) (before ++ row)).1.health.failures ≤
        s.health.failures + (before ++ row).length := failures_useAll_le (s, x) (before ++ row)
    have none : s.health.failures = 0 := by rw [(health_of_new made).1]; rfl
    rw [none, ← joined] at most
    exact most.trans_lt (by omega)
  · intro e mem
    exact ⟨(isSound_of_mem_endings mem).transport, (isSound_of_mem_endings mem).apart⟩
  · constructor
    · intro agree e mem
      by_contra lost
      have lost := Bool.of_not_eq_false lost
      obtain ⟨transport, apart⟩ := isSound_of_mem_endings mem
      exact apart ⟨(agree e mem).mp (transport.mpr (.inr lost)), lost⟩
    · intro whole e mem
      rw [(isSound_of_mem_endings mem).transport, whole e mem]
      simp
  · intro limited long fail
    have counted := failures_of_endings fail
    have retired : (useAll net (s, x) (before ++ row)).1.health.retired = true := by
      apply retired_of_limit_le made limited
      rw [← joined, counted]
      omega
    rw [← joined] at retired
    exact retired

def oneAtMost : Target := { Target.standard with maxTransportFailures := 1 }

/-- A list of orders of which not all comes. -/
def cutOff : Response := { status := 200, headers := [], body := [], isComplete := false }

def twoFetches : List Use := List.replicate 2 (.call .epoch .getOrders)

/-- Where one failure is too many, two calls fail in transport, and yet nothing counts as being
without a response. -/
theorem body_lost_twice :
    ∃ s, Session.new oneAtMost ⟨"a", "b", "c"⟩ = .ok s ∧
      endings laidOut (s, [.ok cutOff, .ok cutOff]) twoFetches =
        List.replicate 2 ⟨true, false, true⟩ ∧
      (useAll laidOut (s, [.ok cutOff, .ok cutOff]) twoFetches).1.health = .fresh := by
  have rehearsal : (Session.new oneAtMost ⟨"a", "b", "c"⟩).toOption.any (fun s =>
      decide (endings laidOut (s, [.ok cutOff, .ok cutOff]) twoFetches =
          List.replicate 2 ⟨true, false, true⟩) &&
        decide ((useAll laidOut (s, [.ok cutOff, .ok cutOff]) twoFetches).1.health = .fresh)) =
      true := by decide +kernel
  obtain ⟨s, made, found⟩ := exists_ok_of_any rehearsal
  simp only [Bool.and_eq_true, decide_eq_true_eq] at found
  exact ⟨s, made, found⟩

def behindCutOff : List Delivery := [.ok cutOff, .error .timedOut, .error .unreachable]

/-- Behind a body that is lost, two requests without a response retire the session. -/
theorem retired_behind_lost_body :
    ∃ s, Session.new twoAtMost ⟨"a", "b", "c"⟩ = .ok s ∧
      let p := useAll laidOut (s, behindCutOff) [.call .epoch .getOrders]
      let visits := List.replicate 2 (Use.call .epoch .top)
      endings laidOut p visits = List.replicate 2 ⟨true, true, false⟩ ∧
        (useAll laidOut p visits).1.health.retired = true := by
  have rehearsal : (Session.new twoAtMost ⟨"a", "b", "c"⟩).toOption.any (fun s =>
      decide (endings laidOut (useAll laidOut (s, behindCutOff) [.call .epoch .getOrders])
        (List.replicate 2 (.call .epoch .top)) = List.replicate 2 ⟨true, true, false⟩)) =
      true := by decide +kernel
  obtain ⟨s, made, found⟩ := exists_ok_of_any rehearsal
  have ends := of_decide_eq_true found
  obtain ⟨-, -, -, retires⟩ := transport_counted_unless_body_lost made laidOut behindCutOff
    [.call .epoch .getOrders] (List.replicate 2 (.call .epoch .top)) (by decide)
  refine ⟨s, made, ends, retires (by decide) ?_ ?_⟩
  · rw [ends]
    decide
  · rw [ends]
    decide

end Session

end TradingLoad.Http

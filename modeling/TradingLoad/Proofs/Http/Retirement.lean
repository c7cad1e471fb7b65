import TradingLoad.Http.Api
import Mathlib.Data.List.Infix
import Mathlib.Data.List.TakeWhile

namespace TradingLoad.Http

/-- What bears on the health of a session. -/
inductive Sign where
  /-- A request had no response. -/
  | silence (cause : TransportCause)
  /-- A request had a response, with some status. -/
  | response (status : Nat)
  | retirement
  deriving DecidableEq

namespace Sign

def isSilence : Sign → Bool
  | silence _ => true
  | _ => false

def isResponse : Sign → Bool
  | response _ => true
  | _ => false

def isRequest (s : Sign) : Bool := s.isSilence || s.isResponse

def ofDelivery : Delivery → Sign
  | .error cause => silence cause
  | .ok a => response a.status

/-- The signs that no response has come since, of a list with the latest first. -/
def sinceResponse (signs : List Sign) : List Sign := signs.takeWhile (!·.isResponse)

/-- So many requests in a row have had no response; in between the session may have been told to
retire. -/
def HasSilence (length : Nat) (signs : List Sign) : Prop :=
  ∃ row, row <:+: signs ∧ (∀ s ∈ row, ¬ s.isResponse) ∧ length ≤ row.countP isSilence

variable {signs row : List Sign}

theorem prefix_sinceResponse (before : row <+: signs) (silent : ∀ s ∈ row, ¬ s.isResponse) :
    row <+: sinceResponse signs := by
  obtain ⟨rest, rfl⟩ := before
  have kept : ∀ s ∈ row, (!s.isResponse) = true := by
    intro s mem
    simpa using silent s mem
  rw [sinceResponse, List.takeWhile_append_of_pos kept]
  exact List.prefix_append row _

theorem hasSilence_sinceResponse {length : Nat}
    (long : length ≤ (sinceResponse signs).countP isSilence) : HasSilence length signs := by
  refine ⟨sinceResponse signs, (List.takeWhile_prefix _).isInfix, ?_, long⟩
  intro s mem
  have silent := List.mem_takeWhile_imp (p := fun s : Sign => !s.isResponse) mem
  simpa using silent

/-- Requests without a response in a row are the latest ones, or were so before. -/
theorem hasSilence_cons {length : Nat} {s : Sign} :
    HasSilence length (s :: signs) ↔
      length ≤ (sinceResponse (s :: signs)).countP isSilence ∨ HasSilence length signs := by
  constructor
  · rintro ⟨row, inside, silent, long⟩
    rcases List.infix_cons_iff.mp inside with latest | before
    · left
      have within := prefix_sinceResponse latest silent
      exact long.trans within.sublist.countP_le
    · exact .inr ⟨row, before, silent, long⟩
  · rintro (long | ⟨row, before, silent, long⟩)
    · exact hasSilence_sinceResponse long
    · exact ⟨row, List.infix_cons before, silent, long⟩

end Sign

namespace Health

/-- The health after a sign. -/
def note (limit : Nat) (h : Health) : Sign → Health
  | .silence _ => h.unanswered limit
  | .response _ => h.answered
  | .retirement => h.retire

/-- The health of a new session after signs, the latest of which is the first in the list. -/
def ofSigns (limit : Nat) (signs : List Sign) : Health :=
  signs.foldr (fun s h => h.note limit s) .fresh

variable {limit : Nat}

theorem ofSigns_cons (s : Sign) (signs : List Sign) :
    ofSigns limit (s :: signs) = (ofSigns limit signs).note limit s := rfl

theorem retired_note {h : Health} (s : Sign) (retired : h.retired = true) :
    (h.note limit s).retired = true := by
  cases s with
  | silence cause => exact retired_unanswered.mpr (.inl retired)
  | response status => exact retired
  | retirement => rfl

theorem failures_ofSigns (limit : Nat) (signs : List Sign) :
    (ofSigns limit signs).failures = (Sign.sinceResponse signs).countP Sign.isSilence := by
  induction signs with
  | nil => rfl
  | cons s signs ih =>
    rw [ofSigns_cons]
    cases s with
    | silence cause =>
      have counted : (ofSigns limit signs).failures + 1 =
          (Sign.silence cause :: Sign.sinceResponse signs).countP Sign.isSilence := by
        rw [ih]
        exact (List.countP_cons_of_pos rfl).symm
      exact counted
    | response status => rfl
    | retirement =>
      have skipped : (ofSigns limit signs).failures =
          (Sign.retirement :: Sign.sinceResponse signs).countP Sign.isSilence := by
        rw [ih]
        exact (List.countP_cons_of_neg Bool.false_ne_true).symm
      exact skipped

theorem retired_ofSigns (limit : Nat) (signs : List Sign) :
    (ofSigns limit signs).retired = true ↔
      .retirement ∈ signs ∨ 0 < limit ∧ Sign.HasSilence limit signs := by
  induction signs with
  | nil =>
    have none : ¬ (0 < limit ∧ Sign.HasSilence limit []) := by
      rintro ⟨positive, row, inside, -, long⟩
      obtain rfl := List.infix_nil.mp inside
      exact absurd long (Nat.not_le_of_lt positive)
    simp [ofSigns, fresh, none]
  | cons s signs ih =>
    -- the count after the latest sign is that of the latest row, so it settles the first disjunct
    rw [ofSigns_cons, Sign.hasSilence_cons, List.mem_cons, ← failures_ofSigns limit,
      ofSigns_cons]
    cases s with
    | silence cause =>
      simp only [note, retired_unanswered, failures_unanswered, ih, reduceCtorEq, false_or]
      tauto
    | response status =>
      have short : ¬ (0 < limit ∧ limit ≤ ((ofSigns limit signs).answered).failures) := by
        rw [failures_answered]
        omega
      simp only [note, retired_answered, ih, reduceCtorEq, false_or]
      tauto
    | retirement => simp [note]

end Health

namespace Session

variable {ν : Type} (net : Network ν)

/-- What is done with a session. -/
inductive Use where
  | call (now : Timestamp) (c : Call)
  | retire
  deriving DecidableEq

/-- What becomes of a request. -/
def deliveryOf (s : Session) (r : Request) (x : ν) : Delivery :=
  (follow net mostRequests { r with cookie := s.cookies.header? r.url } s.cookies x).1

/-- A session and its network after a use. -/
def use (p : Session × ν) : Use → Session × ν
  | .call now c => (p.1.call net now c p.2).2
  | .retire => (p.1.retire, p.2)

/-- What a use shows of the health; nothing if it makes no request. -/
def signOf (p : Session × ν) : Use → Option Sign
  | .call _ c =>
    match p.1.requestOf c with
    | .error _ => none
    | .ok r => some (.ofDelivery (p.1.deliveryOf net r p.2))
  | .retire => some .retirement

def useAll (p : Session × ν) (uses : List Use) : Session × ν := uses.foldl (use net) p

/-- What the uses of a session show of its health, the latest first. -/
def signs (p : Session × ν) : List Use → List Sign
  | [] => []
  | u :: uses => signs (use net p u) uses ++ (signOf net p u).toList

variable {net}

theorem healthAfter_eq_note (s : Session) (d : Delivery) :
    s.healthAfter d = s.health.note s.limit (.ofDelivery d) := by
  cases d <;> rfl

theorem session_call {s : Session} {c : Call} {r : Request} (now : Timestamp) (x : ν)
    (made : s.requestOf c = .ok r) : (s.call net now c x).2 = (s.send net r x).2 := by
  unfold call
  rw [made]
  simp only
  split <;> simp_all

theorem limit_use (p : Session × ν) (u : Use) : (use net p u).1.limit = p.1.limit := by
  cases u with
  | retire => rfl
  | call now c =>
    cases made : p.1.requestOf c with
    | error failure => simp only [use, call, made]
    | ok r =>
      simp only [use, session_call now p.2 made]
      rfl

theorem health_use (p : Session × ν) (u : Use) :
    (use net p u).1.health =
      (signOf net p u).elim p.1.health (p.1.health.note p.1.limit) := by
  cases u with
  | retire => rfl
  | call now c =>
    cases made : p.1.requestOf c with
    | error failure => simp only [use, call, signOf, made, Option.elim_none]
    | ok r =>
      simp only [use, session_call now p.2 made, signOf, made, Option.elim_some]
      exact healthAfter_eq_note p.1 (p.1.deliveryOf net r p.2)

theorem health_useAll {p : Session × ν} {limit : Nat} {earlier : List Sign} (uses : List Use)
    (known : p.1.health = .ofSigns limit earlier) (limited : p.1.limit = limit) :
    (useAll net p uses).1.health = .ofSigns limit (signs net p uses ++ earlier) := by
  -- by induction on the uses; the signs of those before are among the earlier ones
  induction uses generalizing p earlier with
  | nil => exact known
  | cons u uses ih =>
    have next : (use net p u).1.health = .ofSigns limit ((signOf net p u).toList ++ earlier) := by
      rw [health_use, known, limited]
      cases signOf net p u <;> rfl
    have rest := ih next ((limit_use p u).trans limited)
    rw [← List.append_assoc] at rest
    exact rest

/-- A session that is retired stays so. -/
theorem retired_useAll {p : Session × ν} (uses : List Use) (retired : p.1.health.retired = true) :
    (useAll net p uses).1.health.retired = true := by
  induction uses generalizing p with
  | nil => exact retired
  | cons u uses ih =>
    apply ih
    rw [health_use]
    cases signOf net p u with
    | none => exact retired
    | some s => exact Health.retired_note s retired

theorem retirement_mem_signs (p : Session × ν) (uses : List Use) :
    .retirement ∈ signs net p uses ↔ .retire ∈ uses := by
  induction uses generalizing p with
  | nil => simp [signs]
  | cons u uses ih =>
    have here : .retirement ∈ (signOf net p u).toList ↔ .retire = u := by
      cases u with
      | retire => simp [signOf]
      | call now c =>
        simp only [signOf, reduceCtorEq, iff_false]
        split
        · simp
        · simp only [Option.toList_some, List.mem_singleton]
          cases p.1.deliveryOf net _ p.2 <;> simp [Sign.ofDelivery]
    rw [signs, List.mem_append, ih, here, List.mem_cons, or_comm]

/-- A session counts the requests without a response since the last response, in 32 bits as long as
there are fewer requests than that. It is retired when it was told to be, or when so many requests
in a row as its limit have had no response, if it has a limit; and once it is retired it stays so.
-/
theorem retired_iff_told_or_silent {target : Target} {credentials : Credentials} {s : Session}
    (made : Session.new target credentials = .ok s) (net : Network ν) (x : ν) (uses : List Use)
    (few : (signs net (s, x) uses).countP Sign.isRequest < 0x100000000) :
    let seen := signs net (s, x) uses
    let health := (useAll net (s, x) uses).1.health
    (health.failures = (Sign.sinceResponse seen).countP Sign.isSilence ∧
      health.failures < 0x100000000) ∧
    (health.retired = true ↔
      .retire ∈ uses ∨
        0 < target.maxTransportFailures ∧ Sign.HasSilence target.maxTransportFailures seen) ∧
    (∀ more, health.retired = true → (useAll net (s, x) (uses ++ more)).1.health.retired = true) ∧
    (target.maxTransportFailures = 0 → (health.retired = true ↔ .retire ∈ uses)) := by
  intro seen health
  obtain ⟨unknown, limited⟩ : s.health = .fresh ∧ s.limit = target.maxTransportFailures := by
    unfold Session.new at made
    split at made
    · cases made
    · obtain rfl := Except.ok.inj made
      exact ⟨rfl, rfl⟩
  have known : health = .ofSigns target.maxTransportFailures seen := by
    have told : health = .ofSigns target.maxTransportFailures (seen ++ []) :=
      health_useAll uses unknown limited
    rw [List.append_nil] at told
    exact told
  have counted := Health.failures_ofSigns target.maxTransportFailures seen
  have retired := Health.retired_ofSigns target.maxTransportFailures seen
  rw [← known] at counted retired
  rw [retirement_mem_signs] at retired
  refine ⟨⟨counted, ?_⟩, retired, ?_, ?_⟩
  · have part : (Sign.sinceResponse seen).countP Sign.isSilence ≤ seen.countP Sign.isSilence :=
      (List.takeWhile_prefix _).sublist.countP_le
    have requests : seen.countP Sign.isSilence ≤ seen.countP Sign.isRequest := by
      apply List.countP_mono_left
      intro sign _ silent
      simp [Sign.isRequest, silent]
    rw [counted]
    exact (part.trans requests).trans_lt few
  · intro more before
    rw [useAll, List.foldl_append]
    exact retired_useAll more before
  · intro unlimited
    rw [retired, unlimited]
    simp

/-- A network that has its deliveries laid out. -/
def laidOut : Network (List Delivery) where
  send _ ds := (ds.headD (.error .unreachable), ds.tail)
  latency _ _ := some 0

def failing : Response := { status := 500, headers := [], body := [], isComplete := true }

/-- One request without a response, and two behind a response that reports an error. -/
def mixed : List Delivery :=
  [.error .timedOut, .ok failing, .error .timedOut, .error .unreachable]

def twoAtMost : Target := { Target.standard with maxTransportFailures := 2 }

/-- The third silence is the second one in a row. -/
theorem retired_after_two_silences :
    ∃ s, Session.new twoAtMost ⟨"a", "b", "c"⟩ = .ok s ∧
      let visits := List.replicate 4 (Use.call .epoch .top)
      (signs laidOut (s, mixed) visits).countP Sign.isRequest < 0x100000000 ∧
      (useAll laidOut (s, mixed) visits).1.health.failures = 2 ∧
      (useAll laidOut (s, mixed) visits).1.health.retired = true := by
  have rehearsal :
      (match Session.new twoAtMost ⟨"a", "b", "c"⟩ with
      | .error _ => false
      | .ok s =>
        decide (signs laidOut (s, mixed) (List.replicate 4 (Use.call .epoch .top)) =
          [.silence .unreachable, .silence .timedOut, .response 500, .silence .timedOut])) =
        true := by decide +kernel
  split at rehearsal
  · cases rehearsal
  · next s made =>
    have seen := of_decide_eq_true rehearsal
    have few : (signs laidOut (s, mixed) (List.replicate 4 (Use.call .epoch .top))).countP
        Sign.isRequest < 0x100000000 := by
      rw [seen]
      decide
    obtain ⟨⟨failures, -⟩, retired, -⟩ := retired_iff_told_or_silent made laidOut mixed _ few
    refine ⟨s, made, few, ?_, retired.mpr (.inr ⟨by decide, ?_⟩)⟩
    · rw [failures, seen]
      decide
    · rw [seen]
      exact Sign.hasSilence_sinceResponse (by decide)

end Session

end TradingLoad.Http

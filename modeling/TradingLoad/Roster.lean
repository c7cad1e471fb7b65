import TradingLoad.Http.Api
import TradingLoad.Investor.State

namespace TradingLoad

/-- An investor and its session with the exchange. -/
structure Recruit where
  investor : Investor
  session : Http.Session

namespace Roster

/-- The profile of every place. -/
def places (c : BenchConfig) : List InvestorProfile :=
  c.investorProfiles.flatMap fun p => List.replicate p.count p

/-- There are as many places as the counts of the profiles add up to. -/
theorem length_places (c : BenchConfig) :
    (places c).length = c.investorProfiles.foldr (fun p n => p.count + n) 0 := by
  unfold places
  induction c.investorProfiles with
  | nil => rfl
  | cons p ps ih => simp [List.flatMap_cons, ih]

/-- The stream from which the investor at a place trades: that of the seed of the run plus the
place, or a random one if the run has no seed. -/
def sourceAt (seed : Option UInt64) (place : Nat) (s : Random.Stream) :
    Random.Stream × Random.Stream :=
  match seed with
  | some n => (↑(n + UInt64.ofNat place), s)
  | none => s.fork

/-- The investor at a place. -/
def recruit (c : BenchConfig) (seed : Option UInt64) (place : Nat) (p : InvestorProfile)
    (s : Random.Stream) : Outcome (Recruit × Random.Stream) :=
  let (credentials, s) := Credentials.generate c.settings.bankIdPrefix place s
  match Http.Session.new c.target credentials with
  | .error failure => .ok (.error failure)
  | .ok session =>
    let (source, s) := sourceAt seed place s
    (Investor.new credentials.account p c.rewards c.timing source).map fun investor =>
      .ok (⟨investor, session⟩, s)

/-- The investors at the places from one on, up to the first that cannot be had. -/
def recruitAll (c : BenchConfig) (seed : Option UInt64) :
    Nat → List InvestorProfile → Random.Stream → Outcome (List Recruit)
  | _, [], _ => .ok (.ok [])
  | place, p :: ps, s =>
    match recruit c seed place p s with
    | .error fault => .error fault
    | .ok (.error failure) => .ok (.error failure)
    | .ok (.ok (r, s)) =>
      (recruitAll c seed (place + 1) ps s).map fun rest => rest.map (r :: ·)

/-- All investors of a run. -/
def build (c : BenchConfig) (seed : Option UInt64) (s : Random.Stream) : Outcome (List Recruit) :=
  recruitAll c seed 0 (places c) s

end Roster

end TradingLoad

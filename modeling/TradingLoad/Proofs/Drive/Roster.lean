import TradingLoad.Proofs.Drive.Runnable

namespace TradingLoad

open Text

theorem Text.decimal_injective : Function.Injective decimal := by
  intro i j same
  have digits : digits i = digits j := by simpa [decimal] using congrArg String.toList same
  rw [← digitsValue_digits i, digits, digitsValue_digits]

namespace Credentials

variable {word : String} {place : Nat}

/-- What an account can end with: so many small letters and digits. -/
structure IsEnding (ending : String) : Prop where
  length : ending.length = endingLength
  small : ∀ c ∈ ending.toList, c.isLower = true ∨ c.isDigit = true

theorem randomLetter_mem (s : Random.Stream) : (randomLetter s).1 ∈ letters := by
  have first : 'A' ∈ letters := by decide
  unfold randomLetter
  simp only
  cases found : letters[(s.uniform letters.length).1 - 1]? with
  | none => exact first
  | some c => exact List.mem_of_getElem? found

theorem mem_letters_of_mem_randomWord {n : Nat} {s : Random.Stream} {c : Char}
    (listed : c ∈ (randomWord n s).1) : c ∈ letters := by
  induction n generalizing s with
  | zero => cases listed
  | succ n ih =>
    simp only [randomWord, List.mem_cons] at listed
    rcases listed with rfl | later
    · exact randomLetter_mem s
    · exact ih later

theorem small_of_mem_letters {c : Char} (listed : c ∈ letters) :
    c.toLower.isLower = true ∨ c.toLower.isDigit = true := by
  have all : (letters.all fun c => c.toLower.isLower || c.toLower.isDigit) = true := by decide
  exact Bool.or_eq_true_iff.mp (List.all_eq_true.mp all c listed)

theorem isEnding_randomWord (s : Random.Stream) :
    IsEnding (String.ofList ((randomWord endingLength s).1.map Char.toLower)) := by
  constructor
  · rw [String.length_ofList, List.length_map, length_randomWord]
  · intro c listed
    rw [String.toList_ofList] at listed
    obtain ⟨letter, drawn, rfl⟩ := List.mem_map.mp listed
    exact small_of_mem_letters (mem_letters_of_mem_randomWord drawn)

theorem account_generate (word : String) (place : Nat) (s : Random.Stream) :
    (generate word place s).1.account =
      accountHead word place ++ String.ofList ((randomWord endingLength s).1.map Char.toLower) := by
  -- with the source of letters out of sight, no letter is drawn to compare the two sides
  obtain ⟨draw, drawn⟩ : ∃ draw, draw = randomWord := ⟨_, rfl⟩
  obtain ⟨make, made⟩ : ∃ make, generate = make := ⟨_, rfl⟩
  rw [made, ← drawn]
  delta generate at made
  rw [← drawn] at made
  subst made
  rfl

theorem exists_ending (word : String) (place : Nat) (s : Random.Stream) :
    ∃ ending, IsEnding ending ∧
      (generate word place s).1.account = accountHead word place ++ ending :=
  ⟨_, isEnding_randomWord s, account_generate word place s⟩

/-- Endings of one length leave the places as all that tells accounts apart: the word before them
may have digits and dashes of its own. -/
theorem place_eq_of_account_eq {i j : Nat} {a b : String} (length : a.length = b.length)
    (same : accountHead word i ++ a = accountHead word j ++ b) : i = j := by
  have texts : (word ++ "-" ++ decimal i ++ "-").toList ++ a.toList =
      (word ++ "-" ++ decimal j ++ "-").toList ++ b.toList := by
    simpa only [accountHead, String.toList_append] using congrArg String.toList same
  obtain ⟨heads, -⟩ := List.append_inj' texts (by simpa only [String.length_toList] using length)
  have numbers : (decimal i).toList = (decimal j).toList := by
    simpa [String.toList_append] using heads
  exact decimal_injective (String.toList_injective numbers)

end Credentials

namespace Roster

variable {c : BenchConfig} {seed : UInt64}

/-- A recruit at a place is the investor of a profile: it owns what the profile says, trades as the
profile says from the seed plus the place, and has an account that tells the place. -/
structure IsAt (c : BenchConfig) (seed : UInt64) (place : Nat) (p : InvestorProfile) (r : Recruit) :
    Prop where
  ledger : r.investor.ledger = .new p.credit p.inventory
  trader : ∃ n : UInt64, n.toNat = (seed.toNat + place) % 2 ^ 64 ∧
    r.investor.trader = .ofSeed p.unitAmount p.unitPrice n
  account : ∃ ending, Credentials.IsEnding ending ∧
    r.investor.account = Credentials.accountHead c.settings.bankIdPrefix place ++ ending
  session : r.session.credentials.account = r.investor.account

theorem toNat_add_ofNat (n : UInt64) (place : Nat) :
    (n + UInt64.ofNat place).toNat = (n.toNat + place) % 2 ^ 64 := by
  rw [UInt64.toNat_add, UInt64.toNat_ofNat', Nat.add_mod_mod]

/-- Any session opened for an account is one for that account. -/
theorem credentials_of_new {target : Target} {credentials : Credentials} {session : Http.Session}
    (opens : Http.Session.new target credentials = .ok session) :
    session.credentials = credentials := by
  unfold Http.Session.new at opens
  split at opens
  · cases opens
  · cases opens
    rfl

theorem recruit_isAt (url : ∃ u, Url.parse c.target.baseUrl = .ok u)
    (room : c.timing.HasRoom) (place : Nat) (p : InvestorProfile) (s : Random.Stream) :
    ∃ r s', recruit c (some seed) place p s = .ok (.ok (r, s')) ∧ IsAt c seed place p r := by
  obtain ⟨ending, isEnding, named⟩ := Credentials.exists_ending c.settings.bankIdPrefix place s
  rw [recruit_eq]
  generalize Credentials.generate c.settings.bankIdPrefix place s = drawn at named
  obtain ⟨credentials, s⟩ := drawn
  obtain ⟨session, opens⟩ := exists_session url credentials
  obtain ⟨inv, made, -⟩ := Investor.exists_new_of_hasRoom credentials.account p c.rewards
    (Random.Stream.ofSeed (seed + UInt64.ofNat place)) room
  have account := Investor.account_of_new made
  obtain ⟨ledger, -, trader⟩ := Investor.new_eq_ok made
  simp only [opens, sourceAt, made]
  refine ⟨⟨inv, session⟩, s, rfl, ledger, ⟨_, toNat_add_ofNat seed place, trader⟩, ?_, ?_⟩
  · exact ⟨ending, isEnding, account.trans named⟩
  · rw [credentials_of_new opens, account]

theorem recruitAll_isAt (seed : UInt64) (url : ∃ u, Url.parse c.target.baseUrl = .ok u)
    (room : c.timing.HasRoom) (ps : List InvestorProfile) :
    ∀ (place : Nat) (s : Random.Stream), ∃ roster,
      recruitAll c (some seed) place ps s = .ok (.ok roster) ∧ roster.length = ps.length ∧
        ∀ i (r : Recruit) (p : InvestorProfile), roster[i]? = some r → ps[i]? = some p →
          IsAt c seed (place + i) p r := by
  induction ps with
  | nil =>
    intro place s
    exact ⟨[], rfl, rfl, by simp⟩
  | cons p ps ih =>
    intro place s
    obtain ⟨r, s', recruited, first⟩ := recruit_isAt url room place p s
    obtain ⟨rest, more, length, later⟩ := ih (place + 1) s'
    refine ⟨r :: rest, ?_, congrArg (· + 1) length, ?_⟩
    · rw [recruitAll_cons, recruited]
      simp only [more]
      rfl
    · intro i r' p' atPlace ofProfile
      cases i with
      | zero =>
        cases atPlace
        cases ofProfile
        exact first
      | succ i =>
        have here := later i r' p' atPlace ofProfile
        rwa [Nat.add_right_comm] at here

theorem sum_count (c : BenchConfig) :
    (places c).length = (c.investorProfiles.map InvestorProfile.count).sum := by
  rw [length_places]
  induction c.investorProfiles with
  | nil => rfl
  | cons p ps ih => simp [ih]

/-- The standard profile stands in where there are no profiles, and it is one to trade with. -/
theorem isTradable_of_mem_places (accepted : c.check = .ok ()) {p : InvestorProfile}
    (listed : p ∈ places c) : BenchConfig.IsTradable p := by
  have given : ∀ p ∈ c.investors, BenchConfig.IsTradable p := by
    unfold BenchConfig.check at accepted
    split at accepted
    · cases accepted
    · split at accepted
      · cases accepted
      · exact BenchConfig.checkProfiles_eq_ok_iff.mp accepted
  obtain ⟨q, profile, copy⟩ := List.mem_flatMap.mp listed
  obtain rfl := List.eq_of_mem_replicate copy
  unfold BenchConfig.investorProfiles at profile
  split at profile
  · obtain rfl := List.mem_singleton.mp profile
    exact ⟨by decide, by decide, by decide, by decide⟩
  · exact given p profile

/-- A recruit for every place, as the profile of the place says. -/
theorem build_isAt (accepted : c.check = .ok ())
    (roomy : places c = [] ∨ c.timing.HasRoom) (seed : UInt64) (s : Random.Stream) :
    ∃ roster, build c (some seed) s = .ok (.ok roster) ∧ roster.length = (places c).length ∧
      ∀ i r, roster[i]? = some r → ∃ p, (places c)[i]? = some p ∧ IsAt c seed i p r := by
  unfold build
  rcases roomy with empty | room
  · rw [empty]
    exact ⟨[], rfl, rfl, by simp⟩
  · obtain ⟨roster, built, length, isAt⟩ :=
      recruitAll_isAt seed (BenchConfig.url_of_check accepted) room (places c) 0 s
    refine ⟨roster, built, length, fun i r found => ?_⟩
    obtain ⟨within, -⟩ := List.getElem?_eq_some_iff.mp found
    rw [length] at within
    have profile := List.getElem?_eq_getElem within
    have here := isAt i r _ found profile
    rw [Nat.zero_add] at here
    exact ⟨_, profile, here⟩

theorem nodup_accounts {roster : List Recruit}
    (named : ∀ i r, roster[i]? = some r → ∃ ending, Credentials.IsEnding ending ∧
      r.investor.account = Credentials.accountHead c.settings.bankIdPrefix i ++ ending) :
    (roster.map fun r => r.investor.account).Nodup := by
  refine List.pairwise_map.mpr (List.pairwise_iff_getElem.mpr fun i j first second less same => ?_)
  obtain ⟨a, isEnding, here⟩ := named i _ (List.getElem?_eq_getElem first)
  obtain ⟨b, isEnding', there⟩ := named j _ (List.getElem?_eq_getElem second)
  rw [here, there] at same
  have length : a.length = b.length := isEnding.length.trans isEnding'.length.symm
  have one := Credentials.place_eq_of_account_eq length same
  omega

end Roster

namespace BenchConfig

variable {c : BenchConfig}

/-- The settings that pass the check give a roster to any seed, unless there are places in it and
the orders of the run cannot be counted or laid out. Every place is that of its profile in the row
of all profiles, each as often as it counts. Accounts tell places apart, whatever they end with. -/
theorem roster_iff_hasRoom (accepted : c.check = .ok ()) (seed : UInt64) (s : Random.Stream) :
    (Roster.places c = [] ∨ c.timing.HasRoom →
      ∃ roster, Roster.build c (some seed) s = .ok (.ok roster) ∧
        roster.length = (c.investorProfiles.map InvestorProfile.count).sum ∧
        (c.investors = [] → roster.length = 1) ∧
        (∀ i r, roster[i]? = some r → ∃ p,
          (c.investorProfiles.flatMap fun p => List.replicate p.count p)[i]? = some p ∧
          Roster.IsAt c seed i p r ∧
          1 ≤ r.investor.trader.unitAmount ∧ 1 ≤ r.investor.trader.referencePrice ∧
          0 ≤ r.investor.ledger.credit ∧ 0 ≤ r.investor.ledger.inventory) ∧
        (roster.map fun r => r.investor.account).Nodup) ∧
      (Roster.places c ≠ [] → ¬ c.timing.HasRoom →
        Roster.build c (some seed) s = .error c.timing.roomFault) ∧
      ∀ endings : Nat → String, (∀ i, Credentials.IsEnding (endings i)) →
        Function.Injective fun i =>
          Credentials.accountHead c.settings.bankIdPrefix i ++ endings i := by
  have url := url_of_check accepted
  refine ⟨fun roomy => ?_, fun places full => ?_, fun endings isEnding i j same => ?_⟩
  · obtain ⟨roster, built, length, atPlace⟩ := Roster.build_isAt accepted roomy seed s
    have total := length.trans (Roster.sum_count c)
    refine ⟨roster, built, total, fun none => ?_, fun i r found => ?_, ?_⟩
    · rw [total, investorProfiles, if_pos none]
      rfl
    · obtain ⟨p, profile, here⟩ := atPlace i r found
      obtain ⟨n, -, trader⟩ := here.trader
      obtain ⟨amount, price, credit, inventory⟩ :=
        Roster.isTradable_of_mem_places accepted (List.mem_of_getElem? profile)
      refine ⟨p, profile, here, ?_⟩
      rw [here.ledger, trader]
      exact ⟨amount, price, credit, inventory⟩
    · refine Roster.nodup_accounts (c := c) fun i r found => ?_
      obtain ⟨p, -, here⟩ := atPlace i r found
      exact here.account
  · exact Roster.recruitAll_of_not_hasRoom (some seed) url full places 0 s
  · exact Credentials.place_eq_of_account_eq
      ((isEnding i).length.trans (isEnding j).length.symm) same

/-- Three profiles, the second of which counts for nobody. The word of the accounts looks like the
end of one. -/
def crowd : BenchConfig :=
  { standard with
    investors := [{ InvestorProfile.standard with count := 2 },
      { InvestorProfile.standard with count := 0 }, { InvestorProfile.standard with credit := 0 }]
    settings := { AppSettings.standard with bankIdPrefix := "run-1-0" } }

/-- The seeds of the crowd go around past the last one. -/
theorem roster_of_crowd :
    crowd.check = .ok () ∧ crowd.timing.HasRoom ∧
      ∃ roster, Roster.build crowd (some 0xffffffffffffffff) (.ofSeed 0) = .ok (.ok roster) ∧
        roster.length = 3 ∧ (roster.map fun r => r.investor.account).Nodup := by
  have accepted : crowd.check = .ok () := by decide
  have room : crowd.timing.HasRoom := by decide
  obtain ⟨roster, built, length, -, -, apart⟩ :=
    (roster_iff_hasRoom accepted 0xffffffffffffffff (.ofSeed 0)).1 (.inr room)
  exact ⟨accepted, room, roster, built, length, apart⟩

/-- A run of twenty million billion seconds, which the check accepts and whose client can be had,
has no roster, not even one of a single investor. -/
theorem no_roster_beyond_counting :
    let endless := paced
      { Timing.standard with
        benchmarkTimeSecs := 20000000000000000, orderUpdateIntervalMs := 18446744073709551615 }
    endless.check = .ok () ∧
      (∃ session, Http.Session.new endless.target ⟨"", "", ""⟩ = .ok session) ∧
      Roster.places endless = [.standard] ∧
      Roster.build endless (some 0) (.ofSeed 0) = .error .mulOverflow := by
  intro endless
  have accepted : endless.check = .ok () := by decide
  have url := url_of_check accepted
  have full : Roster.build endless (some 0) (.ofSeed 0) = .error endless.timing.roomFault :=
    Roster.recruitAll_of_not_hasRoom (some 0) url (by decide) (by decide) 0 (.ofSeed 0)
  have uncounted : endless.timing.roomFault = .mulOverflow := by decide
  exact ⟨accepted, Roster.exists_session url _, rfl, full.trans (congrArg _ uncounted)⟩

end BenchConfig

end TradingLoad

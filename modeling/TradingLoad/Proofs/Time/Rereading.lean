import TradingLoad.Proofs.Text.Digits
import TradingLoad.Time.Rfc3339

namespace TradingLoad.Timestamp

open Text

variable {cs rest : List Char} {c : Char} {n width : Nat}

theorem isDigit_of_mem_blanks (listed : c ∈ blanks) : c.isDigit = false := by
  have dark : blanks.all (fun c => !c.isDigit) = true := by decide
  simpa using List.all_eq_true.mp dark c listed

theorem skipBlanks_cons (h : isBlank c = false) : skipBlanks (c :: cs) = c :: cs :=
  List.dropWhile_cons_of_neg (by rw [h]; exact Bool.false_ne_true)

theorem exists_paddedDigits_eq_cons (width n : Nat) :
    ∃ d ds, paddedDigits width n = d :: ds ∧ d.isDigit = true ∧ isBlank d = false := by
  obtain ⟨d, ds, form⟩ := List.exists_cons_of_ne_nil (paddedDigits_ne_nil width n)
  have listed : d ∈ paddedDigits width n := by
    rw [form]
    exact List.mem_cons_self
  have digit := isDigit_of_mem_paddedDigits listed
  refine ⟨d, ds, form, digit, ?_⟩
  by_contra blank
  have light : d ∈ blanks := by simpa [isBlank] using blank
  rw [isDigit_of_mem_blanks light] at digit
  cases digit

theorem skipBlanks_paddedDigits (width n : Nat) (rest : List Char) :
    skipBlanks (paddedDigits width n ++ rest) = paddedDigits width n ++ rest := by
  obtain ⟨d, ds, form, -, dark⟩ := exists_paddedDigits_eq_cons width n
  rw [form, List.cons_append, skipBlanks_cons dark]

theorem takeNumber_paddedDigits (some : 0 < width) (small : n < Nat.pow 10 width)
    (rest : List Char) : takeNumber width (paddedDigits width n ++ rest) = .some (n, rest) := by
  rw [takeNumber_append (paddedDigits_ne_nil width n) (fun _ => isDigit_of_mem_paddedDigits)
    (.inl (length_paddedDigits some small)), digitsValue_paddedDigits]

theorem readField_paddedDigits (some : 0 < width) (small : n < Nat.pow 10 width)
    (rest : List Char) : readField width (paddedDigits width n ++ rest) = .some (n, rest) := by
  unfold readField
  rw [skipBlanks_paddedDigits, takeNumber_paddedDigits some small]

theorem readField_two (small : n < 100) (rest : List Char) :
    readField 2 (paddedDigits 2 n ++ rest) = .some (n, rest) :=
  readField_paddedDigits (by decide) small rest

theorem readMark_dash (rest : List Char) : readMark '-' ('-' :: rest) = some rest := rfl

theorem readMark_colon (rest : List Char) : readMark ':' (':' :: rest) = some rest := rfl

/-- A year is read to its end, whatever sign it has. -/
theorem readYear_yearText (year : Int) (ends : EndsDigits rest) :
    readYear (yearText year ++ rest) = some (year, rest) := by
  have long (n : Nat) : takeLongNumber (paddedDigits 4 n ++ rest) = some (n, rest) := by
    rw [takeLongNumber_append (paddedDigits_ne_nil 4 n) (fun _ => isDigit_of_mem_paddedDigits) ends,
      digitsValue_paddedDigits]
  unfold yearText readYear
  split_ifs with short negative
  · have value : (year.toNat : Int) = year := by omega
    have four : takeNumber 4 (paddedDigits 4 year.toNat ++ rest) = some (year.toNat, rest) :=
      takeNumber_paddedDigits (by decide) (show year.toNat < 10000 by omega) rest
    rw [skipBlanks_paddedDigits]
    obtain ⟨d, ds, form, digit, -⟩ := exists_paddedDigits_eq_cons 4 year.toNat
    rw [form, List.cons_append] at four ⊢
    split
    · next same => cases same; cases digit
    · next same => cases same; cases digit
    · simp only [four, Option.map_some, value]
  · have value : -(year.natAbs : Int) = year := by omega
    rw [List.cons_append, skipBlanks_cons rfl]
    simp only [long, Option.map_some, value]
  · have value : (year.natAbs : Int) = year := by omega
    rw [List.cons_append, skipBlanks_cons rfl]
    simp only [long, Option.map_some, value]

theorem readFraction_of_digits {ds : List Char} (some : ds ≠ []) (all : ∀ c ∈ ds, c.isDigit = true)
    (few : ds.length ≤ 9) (ends : EndsDigits rest) :
    readFraction ('.' :: (ds ++ rest)) =
      .some (digitsValue ds * Nat.pow 10 (9 - ds.length), rest) := by
  simp [readFraction, spanDigits_append all ends, List.take_of_length_le few, some]

theorem readFraction_fractionText (small : n < 1000000000) (rest : List Char) :
    readFraction (fractionText n ++ 'Z' :: rest) = some (n, 'Z' :: rest) := by
  have places (width m : Nat) (some : 0 < width) (few : width ≤ 9) (small : m < Nat.pow 10 width)
      (value : m * Nat.pow 10 (9 - width) = n) :
      readFraction ('.' :: paddedDigits width m ++ 'Z' :: rest) = .some (n, 'Z' :: rest) := by
    have length := length_paddedDigits some small
    rw [List.cons_append, readFraction_of_digits (paddedDigits_ne_nil width m)
      (fun _ => isDigit_of_mem_paddedDigits) (by omega) (endsDigits_cons rfl), length,
      digitsValue_paddedDigits, value]
  unfold fractionText
  split_ifs with none milli micro
  · rw [none]
    rfl
  · have few : n / 1000000 < 1000 := by omega
    have whole : n / 1000000 * 1000000 = n := by omega
    exact places 3 (n / 1000000) (by decide) (by decide) few whole
  · have few : n / 1000 < 1000000 := by omega
    have whole : n / 1000 * 1000 = n := by omega
    exact places 6 (n / 1000) (by decide) (by decide) few whole
  · exact places 9 n (by decide) (by decide) small (Nat.mul_one n)

def dateText (d : Date) : List Char :=
  yearText d.year ++ '-' :: paddedDigits 2 d.month ++ '-' :: paddedDigits 2 d.day

theorem readDate_dateText {d : Date} (month : d.month < 100) (day : d.day < 100)
    (rest : List Char) : readDate (dateText d ++ rest) = some (d, rest) := by
  have ends (cs : List Char) : EndsDigits ('-' :: cs) := endsDigits_cons (by decide)
  simp [readDate, dateText, readYear_yearText d.year (ends _), readMark_dash,
    readField_two month, readField_two day]

theorem day_lt {d : Date} (valid : d.Valid) : d.month < 100 ∧ d.day < 100 := by
  obtain ⟨-, -, -, month, -, day⟩ := valid
  have most : Date.daysInMonth d.year d.month ≤ 31 := by
    unfold Date.daysInMonth
    split_ifs <;> decide
  omega

/-- The second as it is written: that of a leap second is the sixtieth. -/
def shownSecond (t : Timestamp) : Nat :=
  if 1000000000 ≤ t.nanosecond then t.second + 1 else t.second

def shownNanos (t : Timestamp) : Nat :=
  if 1000000000 ≤ t.nanosecond then t.nanosecond - 1000000000 else t.nanosecond

theorem toText_eq (t : Timestamp) :
    t.toText = dateText t.date ++
      'T' :: (paddedDigits 2 t.hour ++ ':' :: (paddedDigits 2 t.minute ++
        ':' :: (paddedDigits 2 t.shownSecond ++ (fractionText t.shownNanos ++ ['Z'])))) := by
  simp [toText, dateText, shownSecond, shownNanos]

/-- The fields of a moment that exists make it up. -/
theorem ofFields_eq {t : Timestamp} (valid : t.Valid) :
    (if t.shownSecond = 60 then
      (⟨t.date, t.hour * 60 + t.minute, 59, t.shownNanos + 1000000000⟩ : Timestamp)
    else ⟨t.date, t.hour * 60 + t.minute, t.shownSecond, t.shownNanos⟩) = t := by
  obtain ⟨-, -, clock⟩ := valid
  have minutes : t.hour * 60 + t.minute = t.minuteOfDay := by
    unfold hour minute
    omega
  rw [minutes]
  unfold shownSecond shownNanos
  obtain ⟨date, minuteOfDay, second, nanosecond⟩ := t
  simp only at clock ⊢
  split_ifs <;> simp only [Timestamp.mk.injEq, true_and] <;> omega

theorem ofText_toText {t : Timestamp} (valid : t.Valid) : ofText t.toText = some t := by
  have whole := ofFields_eq valid
  obtain ⟨date, minutes, clock⟩ := valid
  obtain ⟨month, day⟩ := day_lt date
  have hour : t.hour < 24 := by
    unfold hour minutesPerDay at *
    omega
  have minute : t.minute < 60 := Nat.mod_lt _ (by decide)
  have second : t.shownSecond ≤ 60 := by
    unfold shownSecond
    split <;> omega
  have nanos : t.shownNanos < 1000000000 := by
    unfold shownNanos
    split <;> omega
  have hours (cs : List Char) := readField_two (n := t.hour) (by omega) cs
  have minutes' (cs : List Char) := readField_two (n := t.minute) (by omega) cs
  have seconds (cs : List Char) := readField_two (n := t.shownSecond) (by omega) cs
  have zone : readZone ['Z'] = some (0, []) := rfl
  have proper : ¬ (skipBlanks [] ≠ [] ∨ 24 ≤ t.hour ∨ 60 ≤ t.minute ∨ 60 < t.shownSecond ∨
      (minutesPerDay : Int) ≤ (0 : Int).natAbs ∨ ¬ t.date.Valid) := by
    simp [skipBlanks, minutesPerDay, date]
    omega
  rw [toText_eq]
  simp only [ofText, readDate_dateText month day, bind, Option.bind_some, hours, minutes', seconds,
    readMark_colon, readFraction_fractionText nanos, zone, if_neg proper, whole, toUtc_zero minutes,
    if_pos date]

theorem readFraction_lt (h : readFraction cs = some (n, rest)) : n < 1000000000 := by
  unfold readFraction at h
  split at h
  · next ds =>
    simp only at h
    split at h
    · cases h
    · cases h
      have all (c : Char) (listed : c ∈ (spanDigits ds).1.take 9) : c.isDigit = true :=
        List.mem_takeWhile_imp (List.mem_of_mem_take listed)
      have value := digitsValue_lt all
      have few : ((spanDigits ds).1.take 9).length ≤ 9 := List.length_take_le 9 _
      calc digitsValue ((spanDigits ds).1.take 9) * 10 ^ (9 - ((spanDigits ds).1.take 9).length)
          < 10 ^ ((spanDigits ds).1.take 9).length * 10 ^ (9 - ((spanDigits ds).1.take 9).length) :=
            Nat.mul_lt_mul_of_pos_right value (Nat.pow_pos (by decide))
        _ = 1000000000 := by
          rw [← Nat.pow_add, Nat.add_sub_cancel' few]
  · cases h
    decide

/-- The time of the day and the seconds of it. -/
def ShowsClock (t : Timestamp) : Prop :=
  t.minuteOfDay < minutesPerDay ∧
    (t.second < 60 ∧ t.nanosecond < 1000000000 ∨ t.second = 59 ∧ t.nanosecond < 2000000000)

theorem showsClock_toUtc {t : Timestamp} {offset : Int} (shows : t.ShowsClock)
    (short : ¬ (minutesPerDay : Int) ≤ offset.natAbs) : (t.toUtc offset).ShowsClock := by
  obtain ⟨minutes, clock⟩ := shows
  unfold toUtc
  simp only
  split_ifs <;> exact ⟨by simp only; omega, clock⟩

theorem showsClock_of_fields {hour minute second nanos : Nat} (date : Date) (hours : ¬ 24 ≤ hour)
    (minutes : ¬ 60 ≤ minute) (seconds : ¬ 60 < second) (small : nanos < 1000000000) :
    ShowsClock (if second = 60 then ⟨date, hour * 60 + minute, 59, nanos + 1000000000⟩
      else ⟨date, hour * 60 + minute, second, nanos⟩) := by
  have day : hour * 60 + minute < minutesPerDay := by
    unfold minutesPerDay
    omega
  split
  · exact ⟨day, .inr ⟨rfl, by simp only; omega⟩⟩
  · exact ⟨day, .inl ⟨by simp only; omega, small⟩⟩

theorem valid_of_ofText {t : Timestamp} (h : ofText cs = some t) : t.Valid := by
  unfold ofText at h
  simp only [bind, Option.bind_eq_some_iff] at h
  obtain ⟨⟨date, cs₁⟩, -, h⟩ := h
  split at h
  case h_4 => cases h
  all_goals
    simp only [Option.bind_some, Option.bind_eq_some_iff] at h
    obtain ⟨⟨hour, _⟩, -, _, -, ⟨minute, _⟩, -, _, -, ⟨second, _⟩, -, ⟨nanos, _⟩, fraction,
      ⟨offset, _⟩, -, h⟩ := h
    obtain ⟨proper, h⟩ := Option.ite_none_left_eq_some.mp h
    obtain ⟨valid, same⟩ := Option.ite_none_right_eq_some.mp h
    cases same
    simp only [not_or] at proper
    obtain ⟨-, hours, minutes, seconds, short, -⟩ := proper
    exact ⟨valid, showsClock_toUtc
      (showsClock_of_fields date hours minutes seconds (readFraction_lt fraction)) short⟩

/-- A moment that was read is read back from its written form. -/
theorem parse?_render {s : String} {t : Timestamp} (h : parse? s = some t) :
    parse? t.render = some t := by
  unfold parse? render
  rw [String.toList_ofList]
  exact ofText_toText (valid_of_ofText h)

end TradingLoad.Timestamp

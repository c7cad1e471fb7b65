import TradingLoad.Config.Wire
import TradingLoad.Market.Wire
import TradingLoad.Proofs.Json.Rereading
import TradingLoad.Proofs.Time.Rereading

namespace TradingLoad

open JsonValue

variable {α : Type} {read : JsonValue → Option α} {write : α → JsonValue}

/-- What is read from any value is read from its written form too. -/
def Rereads (read : JsonValue → Option α) (write : α → JsonValue) : Prop :=
  ∀ (v : JsonValue) (a : α), read v = some a → read (write a) = some a

theorem rereads_int : Rereads int? ofInt := by
  intro v a h
  have small : InInt64 a := by
    unfold int? at h
    split at h
    · obtain ⟨small, same⟩ := Option.ite_none_right_eq_some.mp h
      cases same
      exact small
    · cases h
  exact if_pos small

theorem word?_ofNat {bits n : Nat} (small : n < Nat.pow 2 bits) :
    word? bits (ofNat n) = some n := by
  have bound : 0 ≤ (n : Int) ∧ (n : Int) < Int.pow 2 bits := by
    refine ⟨Int.natCast_nonneg n, ?_⟩
    have power : (Nat.pow 2 bits : Int) = Int.pow 2 bits := Int.natCast_pow 2 bits
    rw [← power]
    exact Int.ofNat_lt.mpr small
  exact if_pos bound

theorem rereads_word (bits : Nat) : Rereads (word? bits) ofNat := by
  intro v n h
  refine word?_ofNat ?_
  unfold word? at h
  split at h
  · obtain ⟨⟨whole, small⟩, same⟩ := Option.ite_none_right_eq_some.mp h
    cases same
    have power : (Nat.pow 2 bits : Int) = Int.pow 2 bits := Int.natCast_pow 2 bits
    omega
  · cases h

theorem rereads_string : Rereads string? ofString := fun _ _ _ => rfl

theorem rereads_bool : Rereads bool? JsonValue.bool := fun _ _ _ => rfl

theorem rereads_option (h : Rereads read write) (ne : ∀ a, write a ≠ .null) :
    Rereads (option? read) (ofOption write) := by
  intro v a found
  cases a with
  | none => rfl
  | some a =>
    have reads : read v = some a := by
      unfold option? at found
      split at found
      · cases found
      · obtain ⟨b, reads, same⟩ := Option.map_eq_some_iff.mp found
        cases same
        exact reads
    have again := h v a reads
    have shown := ne a
    unfold ofOption option?
    split
    · next null => exact absurd null shown
    · next other _ => rw [again]; rfl

theorem rereads_mapM (h : Rereads read write) :
    ∀ (items : List JsonValue) (as : List α), items.mapM read = some as →
      (as.map write).mapM read = some as := by
  intro items
  induction items with
  | nil =>
    intro as found
    cases found
    rfl
  | cons v items ih =>
    intro as found
    simp only [List.mapM_cons, bind, pure, Option.bind_eq_some_iff] at found
    obtain ⟨a, reads, rest, more, same⟩ := found
    cases same
    simp [h v a reads, ih rest more]

theorem rereads_list (h : Rereads read write) : Rereads (list? read) (ofList write) := by
  intro v as found
  simp only [list?, bind, Option.bind_eq_some_iff] at found
  obtain ⟨items, -, reads⟩ := found
  exact rereads_mapM h items as reads

theorem fields?_ofFields {names : List String} {fields : List (String × JsonValue)}
    (same : fields.map Prod.fst = names) (distinct : names.Nodup) :
    fields? names (ofFields fields) = some ⟨fields⟩ := by
  have named : (fields.map fun f => (some f.1, f.2)).mapM
      (fun m : JsonText × JsonValue => m.1.map fun name => (name, m.2)) = some fields := by
    clear same
    induction fields with
    | nil => rfl
    | cons f fields ih => simp [ih]
  have known : fields.filter (fun m => names.contains m.1) = fields := by
    refine List.filter_eq_self.mpr fun f listed => ?_
    rw [List.contains_iff_mem, ← same]
    exact List.mem_map_of_mem listed
  unfold fields? ofFields fieldsOfMembers?
  simp only [named, bind, Option.bind_some, known, same]
  exact if_pos distinct

namespace Fields

variable {r : Fields JsonValue} {name other : String} {v : JsonValue} {a fallback : α}
  {entries : List (String × JsonValue)}

@[simp]
theorem required_cons_self : required ⟨(name, v) :: entries⟩ name read = read v := by
  simp [required, get?]

@[simp]
theorem required_cons_of_ne (ne : name ≠ other) :
    required ⟨(other, v) :: entries⟩ name read = required ⟨entries⟩ name read := by
  have test : (name == other) = false := beq_eq_false_iff_ne.mpr ne
  simp [required, get?, List.lookup_cons, test]

@[simp]
theorem defaulted_cons_self :
    defaulted ⟨(name, v) :: entries⟩ name fallback read = read v := by
  simp [defaulted, get?]

@[simp]
theorem defaulted_cons_of_ne (ne : name ≠ other) :
    defaulted ⟨(other, v) :: entries⟩ name fallback read =
      defaulted ⟨entries⟩ name fallback read := by
  have test : (name == other) = false := beq_eq_false_iff_ne.mpr ne
  simp [defaulted, get?, List.lookup_cons, test]

end Fields

theorem Rereads.required {r : Fields JsonValue} {name : String} {a : α} (h : Rereads read write)
    (found : r.required name read = some a) : read (write a) = some a := by
  obtain ⟨v, -, reads⟩ := Option.bind_eq_some_iff.mp found
  exact h v a reads

/-- The value that stands for a missing field has to be one that can be written. -/
theorem Rereads.defaulted {r : Fields JsonValue} {name : String} {a fallback : α}
    (h : Rereads read write) (standard : read (write fallback) = some fallback)
    (found : r.defaulted name fallback read = some a) : read (write a) = some a := by
  unfold Fields.defaulted at found
  split at found
  · cases found
    exact standard
  · exact h _ a found

theorem Timestamp.rereads : Rereads ofJson? toJson := by
  intro v t h
  obtain ⟨s, -, parses⟩ := Option.bind_eq_some_iff.mp h
  have shown : string? (toJson t) = some t.render := rfl
  unfold ofJson?
  rw [shown, Option.bind_some]
  exact Timestamp.parse?_render parses

theorem Side.rereads : Rereads ofJson? toJson := by
  intro _ s _
  cases s <;> rfl

theorem Trade.rereads : Rereads ofJson? toJson := by
  intro v t h
  simp only [ofJson?, bind, Option.bind_eq_some_iff] at h
  obtain ⟨r, -, id, hid, amount, hamount, price, hprice, createdAt, hcreated, same⟩ := h
  cases same
  have fields : fields? fieldNames (toJson ⟨id, amount, price, createdAt⟩) = some ⟨_⟩ :=
    fields?_ofFields rfl (by decide)
  simp only [ofJson?, bind, Option.bind_eq_some_iff]
  refine ⟨_, fields, id, ?_, amount, ?_, price, ?_, createdAt, ?_, rfl⟩
  · simp [rereads_int.required hid]
  · simp [rereads_int.required hamount]
  · simp [rereads_int.required hprice]
  · simp [Timestamp.rereads.required hcreated]

theorem Order.rereads : Rereads ofJson? toJson := by
  intro v o h
  simp only [ofJson?, bind, Option.bind_eq_some_iff] at h
  obtain ⟨r, -, id, hid, side, hside, userId, huser, amount, hamount, price, hprice, createdAt,
    hcreated, closedAt, hclosed, tradeId, htradeId, trade, htrade, same⟩ := h
  cases same
  have fields : fields? fieldNames
      (toJson ⟨id, side, userId, amount, price, createdAt, closedAt, tradeId, trade⟩) = some ⟨_⟩ :=
    fields?_ofFields rfl (by decide)
  have closed : Rereads (option? Timestamp.ofJson?) (ofOption Timestamp.toJson) :=
    rereads_option Timestamp.rereads nofun
  have tradeIds : Rereads (option? int?) (ofOption ofInt) := rereads_option rereads_int nofun
  have trades : Rereads (option? Trade.ofJson?) (ofOption Trade.toJson) :=
    rereads_option Trade.rereads nofun
  simp only [ofJson?, bind, Option.bind_eq_some_iff]
  refine ⟨_, fields, id, ?_, side, ?_, userId, ?_, amount, ?_, price, ?_, createdAt, ?_, closedAt,
    ?_, tradeId, ?_, trade, ?_, rfl⟩
  · simp [rereads_int.required hid]
  · simp [Side.rereads.required hside]
  · simp [rereads_int.defaulted rfl huser]
  · simp [rereads_int.required hamount]
  · simp [rereads_int.required hprice]
  · simp [Timestamp.rereads.required hcreated]
  · simp [closed.defaulted rfl hclosed]
  · simp [tradeIds.defaulted rfl htradeId]
  · simp [trades.defaulted rfl htrade]

theorem Candlestick.rereads : Rereads ofJson? toJson := by
  intro v c h
  simp only [ofJson?, bind, Option.bind_eq_some_iff] at h
  obtain ⟨r, -, time, htime, opening, hopening, closing, hclosing, high, hhigh, low, hlow, same⟩ :=
    h
  cases same
  have fields : fields? fieldNames (toJson ⟨time, opening, closing, high, low⟩) = some ⟨_⟩ :=
    fields?_ofFields rfl (by decide)
  simp only [ofJson?, bind, Option.bind_eq_some_iff]
  refine ⟨_, fields, time, ?_, opening, ?_, closing, ?_, high, ?_, low, ?_, rfl⟩
  · simp [Timestamp.rereads.required htime]
  · simp [rereads_int.required hopening]
  · simp [rereads_int.required hclosing]
  · simp [rereads_int.required hhigh]
  · simp [rereads_int.required hlow]

theorem InfoSnapshot.rereads : Rereads ofJson? toJson := by
  intro v info h
  simp only [ofJson?, bind, Option.bind_eq_some_iff] at h
  obtain ⟨r, -, cursor, hcursor, orders, horders, sell, hsell, buy, hbuy, second, hsecond, minute,
    hminute, hour, hhour, share, hshare, same⟩ := h
  cases same
  have fields : fields? fieldNames
      (toJson ⟨cursor, orders, sell, buy, second, minute, hour, share⟩) = some ⟨_⟩ :=
    fields?_ofFields rfl (by decide)
  have traded : Rereads (option? (list? Order.ofJson?)) (ofOption (ofList Order.toJson)) :=
    rereads_option (rereads_list Order.rereads) nofun
  have chart : Rereads (list? Candlestick.ofJson?) (ofList Candlestick.toJson) :=
    rereads_list Candlestick.rereads
  simp only [ofJson?, bind, Option.bind_eq_some_iff]
  refine ⟨_, fields, cursor, ?_, orders, ?_, sell, ?_, buy, ?_, second, ?_, minute, ?_, hour, ?_,
    share, ?_, rfl⟩
  · simp [rereads_int.required hcursor]
  · simp [traded.defaulted rfl horders]
  · simp [rereads_int.defaulted rfl hsell]
  · simp [rereads_int.defaulted rfl hbuy]
  · simp [chart.defaulted rfl hsecond]
  · simp [chart.defaulted rfl hminute]
  · simp [chart.defaulted rfl hhour]
  · simp [rereads_bool.defaulted rfl hshare]

/-- A number with a standard value that fits. -/
theorem word_defaulted {bits n fallback : Nat} {r : Fields JsonValue} {name : String}
    (small : fallback < Nat.pow 2 bits) (found : r.defaulted name fallback (word? bits) = some n) :
    word? bits (ofNat n) = some n :=
  (rereads_word bits).defaulted (word?_ofNat small) found

theorem ErrorReply.rereads : Rereads ofJson? toJson := by
  intro v e h
  simp only [ofJson?, bind, Option.bind_eq_some_iff] at h
  obtain ⟨r, -, code, hcode, text, htext, same⟩ := h
  cases same
  have fields : fields? fieldNames (toJson ⟨code, text⟩) = some ⟨_⟩ :=
    fields?_ofFields rfl (by decide)
  simp only [ofJson?, bind, Option.bind_eq_some_iff]
  refine ⟨_, fields, code, ?_, text, ?_, rfl⟩
  · simp [word_defaulted (by decide) hcode]
  · simp [rereads_string.defaulted rfl htext]

theorem AcceptedReply.rereads : Rereads ofJson? toJson := by
  intro v a h
  simp only [ofJson?, bind, Option.bind_eq_some_iff] at h
  obtain ⟨r, -, id, hid, same⟩ := h
  cases same
  have fields : fields? fieldNames (toJson ⟨id⟩) = some ⟨_⟩ := fields?_ofFields rfl (by decide)
  simp only [ofJson?, bind, Option.bind_eq_some_iff]
  refine ⟨_, fields, id, ?_, rfl⟩
  · simp [rereads_int.required hid]

theorem Target.rereads : Rereads (ofData? dataNotation) toJson := by
  intro v t h
  simp only [ofData?, dataNotation, bind, Option.bind_eq_some_iff] at h
  obtain ⟨r, -, url, hurl, timeout, htimeout, most, hmost, same⟩ := h
  cases same
  have fields : fields? fieldNames (toJson ⟨url, timeout, most⟩) = some ⟨_⟩ :=
    fields?_ofFields rfl (by decide)
  simp only [ofData?, dataNotation, bind, Option.bind_eq_some_iff]
  refine ⟨_, fields, url, ?_, timeout, ?_, most, ?_, rfl⟩
  · simp [rereads_string.defaulted rfl hurl]
  · simp [word_defaulted (by decide) htimeout]
  · simp [word_defaulted (by decide) hmost]

theorem Rewards.rereads : Rereads (ofData? dataNotation) toJson := by
  intro v rewards h
  simp only [ofData?, dataNotation, bind, Option.bind_eq_some_iff] at h
  obtain ⟨r, -, top, htop, signup, hsignup, signin, hsignin, info, hinfo, orders, horders, add,
    hadd, delete, hdelete, same⟩ := h
  cases same
  have fields : fields? fieldNames
      (toJson ⟨top, signup, signin, info, orders, add, delete⟩) = some ⟨_⟩ :=
    fields?_ofFields rfl (by decide)
  simp only [ofData?, dataNotation, bind, Option.bind_eq_some_iff]
  refine ⟨_, fields, top, ?_, signup, ?_, signin, ?_, info, ?_, orders, ?_, add, ?_, delete, ?_,
    rfl⟩
  · simp [word_defaulted (by decide) htop]
  · simp [word_defaulted (by decide) hsignup]
  · simp [word_defaulted (by decide) hsignin]
  · simp [word_defaulted (by decide) hinfo]
  · simp [word_defaulted (by decide) horders]
  · simp [word_defaulted (by decide) hadd]
  · simp [word_defaulted (by decide) hdelete]

theorem Timing.rereads : Rereads (ofData? dataNotation) toJson := by
  intro v t h
  simp only [ofData?, dataNotation, bind, Option.bind_eq_some_iff] at h
  obtain ⟨r, -, cap, hcap, polling, hpolling, placing, hplacing, time, htime, tick, htick, jitter,
    hjitter, same⟩ := h
  cases same
  have fields : fields? fieldNames
      (toJson ⟨cap, polling, placing, time, tick, jitter⟩) = some ⟨_⟩ :=
    fields?_ofFields rfl (by decide)
  simp only [ofData?, dataNotation, bind, Option.bind_eq_some_iff]
  refine ⟨_, fields, cap, ?_, polling, ?_, placing, ?_, time, ?_, tick, ?_, jitter, ?_, rfl⟩
  · simp [word_defaulted (by decide) hcap]
  · simp [word_defaulted (by decide) hpolling]
  · simp [word_defaulted (by decide) hplacing]
  · simp [word_defaulted (by decide) htime]
  · simp [word_defaulted (by decide) htick]
  · simp [word_defaulted (by decide) hjitter]

theorem InvestorProfile.rereads : Rereads (ofData? dataNotation) toJson := by
  intro v p h
  simp only [ofData?, dataNotation, bind, Option.bind_eq_some_iff] at h
  obtain ⟨r, -, credit, hcredit, inventory, hinventory, amount, hamount, price, hprice, count,
    hcount, same⟩ := h
  cases same
  have fields : fields? fieldNames (toJson ⟨credit, inventory, amount, price, count⟩) = some ⟨_⟩ :=
    fields?_ofFields rfl (by decide)
  simp only [ofData?, dataNotation, bind, Option.bind_eq_some_iff]
  refine ⟨_, fields, credit, ?_, inventory, ?_, amount, ?_, price, ?_, count, ?_, rfl⟩
  · simp [rereads_int.defaulted rfl hcredit]
  · simp [rereads_int.defaulted rfl hinventory]
  · simp [rereads_int.defaulted rfl hamount]
  · simp [rereads_int.defaulted rfl hprice]
  · simp [word_defaulted (by decide) hcount]

theorem AppSettings.rereads : Rereads (ofData? dataNotation) toJson := by
  intro v settings h
  simp only [ofData?, dataNotation, bind, Option.bind_eq_some_iff] at h
  obtain ⟨r, -, level, hlevel, word, hword, same⟩ := h
  cases same
  have fields : fields? fieldNames (toJson ⟨level, word⟩) = some ⟨_⟩ :=
    fields?_ofFields rfl (by decide)
  simp only [ofData?, dataNotation, bind, Option.bind_eq_some_iff]
  refine ⟨_, fields, level, ?_, word, ?_, rfl⟩
  · simp [rereads_string.defaulted rfl hlevel]
  · simp [rereads_string.defaulted rfl hword]

theorem BenchConfig.rereads : Rereads (ofData? dataNotation) toJson := by
  intro v c h
  simp only [ofData?, bind, Option.bind_eq_some_iff] at h
  obtain ⟨r, -, target, htarget, rewards, hrewards, timing, htiming, investors, hinvestors,
    settings, hsettings, same⟩ := h
  cases same
  have fields : fields? fieldNames (toJson ⟨target, rewards, timing, investors, settings⟩) =
      some ⟨_⟩ := fields?_ofFields rfl (by decide)
  have profiles : Rereads (list? (InvestorProfile.ofData? dataNotation))
      (ofList InvestorProfile.toJson) := rereads_list InvestorProfile.rereads
  -- a section without any field is the standard one
  have target' := Target.rereads (.object []) _ rfl
  have rewards' := Rewards.rereads (.object []) _ rfl
  have timing' := Timing.rereads (.object []) _ rfl
  have settings' := AppSettings.rereads (.object []) _ rfl
  simp only [ofData?, bind, Option.bind_eq_some_iff]
  refine ⟨_, fields, target, ?_, rewards, ?_, timing, ?_, investors, ?_, settings, ?_, rfl⟩
  · simp [Target.rereads.defaulted target' htarget]
  · simp [Rewards.rereads.defaulted rewards' hrewards]
  · simp [Timing.rereads.defaulted timing' htiming]
  · change Fields.defaulted _ _ _ (list? (InvestorProfile.ofData? dataNotation)) = some investors
    simp [profiles.defaulted rfl hinvestors]
  · simp [AppSettings.rereads.defaulted settings' hsettings]

/-- What is read from texts and written to them: the records of the exchange and the settings. -/
inductive Document where
  | side
  | trade
  | order
  | candlestick
  | infoSnapshot
  | errorReply
  | acceptedReply
  | rewards
  | timing
  | target
  | investorProfile
  | appSettings
  | benchConfig

namespace Document

/-- What a document is about. -/
def Content : Document → Type
  | side => Side
  | trade => Trade
  | order => Order
  | candlestick => Candlestick
  | infoSnapshot => InfoSnapshot
  | errorReply => ErrorReply
  | acceptedReply => AcceptedReply
  | rewards => Rewards
  | timing => Timing
  | target => Target
  | investorProfile => InvestorProfile
  | appSettings => AppSettings
  | benchConfig => BenchConfig

def ofJson? : (d : Document) → JsonValue → Option d.Content
  | side => Side.ofJson?
  | trade => Trade.ofJson?
  | order => Order.ofJson?
  | candlestick => Candlestick.ofJson?
  | infoSnapshot => InfoSnapshot.ofJson?
  | errorReply => ErrorReply.ofJson?
  | acceptedReply => AcceptedReply.ofJson?
  | rewards => Rewards.ofData? dataNotation
  | timing => Timing.ofData? dataNotation
  | target => Target.ofData? dataNotation
  | investorProfile => InvestorProfile.ofData? dataNotation
  | appSettings => AppSettings.ofData? dataNotation
  | benchConfig => BenchConfig.ofData? dataNotation

def toJson : (d : Document) → d.Content → JsonValue
  | side => Side.toJson
  | trade => Trade.toJson
  | order => Order.toJson
  | candlestick => Candlestick.toJson
  | infoSnapshot => InfoSnapshot.toJson
  | errorReply => ErrorReply.toJson
  | acceptedReply => AcceptedReply.toJson
  | rewards => Rewards.toJson
  | timing => Timing.toJson
  | target => Target.toJson
  | investorProfile => InvestorProfile.toJson
  | appSettings => AppSettings.toJson
  | benchConfig => BenchConfig.toJson

def parse? (d : Document) (text : String) : Option d.Content :=
  (JsonValue.parse? text).bind d.ofJson?

def render (d : Document) (content : d.Content) : String := (d.toJson content).render

/-- The text that is written for what is read from a text. -/
def normalize? (d : Document) (text : String) : Option String := (d.parse? text).map d.render

theorem rereads : ∀ d : Document, Rereads d.ofJson? d.toJson
  | side => Side.rereads
  | trade => Trade.rereads
  | order => Order.rereads
  | candlestick => Candlestick.rereads
  | infoSnapshot => InfoSnapshot.rereads
  | errorReply => ErrorReply.rereads
  | acceptedReply => AcceptedReply.rereads
  | rewards => Rewards.rereads
  | timing => Timing.rereads
  | target => Target.rereads
  | investorProfile => InvestorProfile.rereads
  | appSettings => AppSettings.rereads
  | benchConfig => BenchConfig.rereads

theorem parse?_render {d : Document} {text : String} {content : d.Content}
    (h : d.parse? text = some content) : d.parse? (d.render content) = some content := by
  obtain ⟨v, -, reads⟩ := Option.bind_eq_some_iff.mp h
  unfold parse? render
  rw [JsonValue.parse?_render, Option.bind_some]
  exact d.rereads v content reads

/-- Whatever is read from a text is read again from the text that is written for it, so that to read
and write a text once more changes nothing. -/
theorem written_read_back (d : Document) (text : String) :
    (∀ content, d.parse? text = some content → d.parse? (d.render content) = some content) ∧
      (d.normalize? text).bind d.normalize? = d.normalize? text := by
  refine ⟨fun _ => parse?_render, ?_⟩
  unfold normalize?
  cases h : d.parse? text with
  | none => rfl
  | some content => simp [parse?_render h]

/-- A sell order in the last second of the year 9999, which is a leap second. -/
def lateOrder : Order := .placed 7 .sell 5 100 ⟨⟨9999, 12, 31⟩, 1439, 59, 1123456789⟩

/-- Its moment was given in the year 10000, by a clock that is a minute ahead. -/
theorem late_order_read_back :
    Document.infoSnapshot.parse? (Document.infoSnapshot.render
      ⟨9, some [lateOrder], 0, 0, [], [], [], false⟩) =
      some ⟨9, some [lateOrder], 0, 0, [], [], [], false⟩ := by
  have read : (JsonValue.parse?
      "[9, [[7, \"sell\", 0, 5, 100, \"+10000-01-01 00:00:60.1234567891 +00:01\"]]]").bind
      InfoSnapshot.ofJson? = some ⟨9, some [lateOrder], 0, 0, [], [], [], false⟩ := by
    decide +kernel
  exact (written_read_back .infoSnapshot _).1 _ read

end Document

end TradingLoad

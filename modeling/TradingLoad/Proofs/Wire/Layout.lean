import TradingLoad.Proofs.Json.Layout
import TradingLoad.Proofs.Json.Shape
import TradingLoad.Proofs.Wire.Rereading

namespace TradingLoad

open JsonValue

theorem Timestamp.respects : Respects .plain ofJson? := respects_plain (fun _ => rfl) fun _ => rfl

namespace Side

theorem ofJson?_of_length_ne {ms : List (JsonText × JsonValue)} (length : ms.length ≠ 1) :
    ofJson? (.object ms) = none := by
  rcases ms with - | ⟨m, - | ⟨m', ms⟩⟩
  · rfl
  · exact absurd rfl length
  · simp [ofJson?]

theorem ofJson?_of_ne_null {name : JsonText} {v : JsonValue} (shown : v ≠ .null) :
    ofJson? (.object [(name, v)]) = none := by
  unfold ofJson?
  split
  · next same => cases same
  · next same =>
    cases same
    exact absurd rfl shown
  · rfl

/-- A side is no record: its object may have no more than the one member. -/
theorem respects : Respects .plain ofJson? where
  again relaid := by
    generalize same : Shape.plain = s at relaid
    induction relaid with
    | refl => rfl
    | trans first more ih ih' => exact (ih' same).trans (ih same)
    | @reorder _ ms ns perm =>
      by_cases length : ms.length = 1
      · rw [eq_of_perm perm (Nat.le_of_eq length)]
      · rw [ofJson?_of_length_ne length, ofJson?_of_length_ne (perm.length_eq ▸ length)]
    | insert unknown =>
      subst same
      cases unknown
    | item => rfl
    | @member _ name v w ms ns part =>
      by_cases alone : ms = [] ∧ ns = []
      · obtain ⟨rfl, rfl⟩ := alone
        by_cases null : v = .null
        · rw [null, part.null_iff.mp null]
        · have shown := mt part.null_iff.mpr null
          exact (ofJson?_of_ne_null shown).trans (ofJson?_of_ne_null null).symm
      · have length (u : JsonValue) : (ms ++ (name, u) :: ns).length ≠ 1 := by
          intro single
          rw [List.length_append, List.length_cons] at single
          refine alone ⟨List.length_eq_zero_iff.mp ?_, List.length_eq_zero_iff.mp ?_⟩ <;> omega
        rw [ofJson?_of_length_ne (length v), ofJson?_of_length_ne (length w)]
  unspoilt _ := not_spoilt_plain _

end Side

namespace Trade

def shape : Shape := .flat fieldNames

theorem respects : Respects shape ofJson? :=
  respects_record
    (.bind (.required respects_int) fun _ => .bind (.required respects_int) fun _ =>
      .bind (.required respects_int) fun _ => .bind (.required Timestamp.respects) fun _ =>
      .pure _)
    rfl (by decide)

end Trade

namespace Order

def shape : Shape :=
  .record [("id", .plain), ("type", .plain), ("user_id", .plain), ("amount", .plain),
    ("price", .plain), ("created_at", .plain), ("closed_at", .plain), ("trade_id", .plain),
    ("trade", Trade.shape)]

theorem respects : Respects shape ofJson? :=
  respects_record
    (.bind (.required respects_int) fun _ => .bind (.required Side.respects) fun _ =>
      .bind (.defaulted respects_int) fun _ => .bind (.required respects_int) fun _ =>
      .bind (.required respects_int) fun _ => .bind (.required Timestamp.respects) fun _ =>
      .bind (.defaulted Timestamp.respects.option) fun _ =>
      .bind (.defaulted respects_int.option) fun _ =>
      .bind (.defaulted Trade.respects.option) fun _ => .pure _)
    rfl (by decide)

end Order

namespace Candlestick

def shape : Shape := .flat fieldNames

theorem respects : Respects shape ofJson? :=
  respects_record
    (.bind (.required Timestamp.respects) fun _ => .bind (.required respects_int) fun _ =>
      .bind (.required respects_int) fun _ => .bind (.required respects_int) fun _ =>
      .bind (.required respects_int) fun _ => .pure _)
    rfl (by decide)

end Candlestick

namespace InfoSnapshot

def shape : Shape :=
  .record [("cursor", .plain), ("traded_orders", .list Order.shape), ("lowest_sell_price", .plain),
    ("highest_buy_price", .plain), ("chart_by_sec", .list Candlestick.shape),
    ("chart_by_min", .list Candlestick.shape), ("chart_by_hour", .list Candlestick.shape),
    ("enable_share", .plain)]

theorem respects : Respects shape ofJson? :=
  respects_record
    (.bind (.required respects_int) fun _ =>
      .bind (.defaulted Order.respects.list.option) fun _ =>
      .bind (.defaulted respects_int) fun _ => .bind (.defaulted respects_int) fun _ =>
      .bind (.defaulted Candlestick.respects.list) fun _ =>
      .bind (.defaulted Candlestick.respects.list) fun _ =>
      .bind (.defaulted Candlestick.respects.list) fun _ =>
      .bind (.defaulted respects_bool) fun _ => .pure _)
    rfl (by decide)

end InfoSnapshot

namespace ErrorReply

def shape : Shape := .flat fieldNames

theorem respects : Respects shape ofJson? :=
  respects_record
    (.bind (.defaulted (respects_word 16)) fun _ => .bind (.defaulted respects_string) fun _ =>
      .pure _)
    rfl (by decide)

end ErrorReply

namespace AcceptedReply

def shape : Shape := .flat fieldNames

theorem respects : Respects shape ofJson? :=
  respects_record (.bind (.required respects_int) fun _ => .pure _) rfl (by decide)

end AcceptedReply

namespace Target

def shape : Shape := .flat fieldNames

theorem respects : Respects shape (ofData? dataNotation) :=
  respects_record
    (.bind (.defaulted respects_string) fun _ => .bind (.defaulted (respects_word 64)) fun _ =>
      .bind (.defaulted (respects_word 32)) fun _ => .pure _)
    rfl (by decide)

end Target

namespace Rewards

def shape : Shape := .flat fieldNames

theorem respects : Respects shape (ofData? dataNotation) :=
  have word := respects_word 64
  respects_record
    (.bind (.defaulted word) fun _ => .bind (.defaulted word) fun _ =>
      .bind (.defaulted word) fun _ => .bind (.defaulted word) fun _ =>
      .bind (.defaulted word) fun _ => .bind (.defaulted word) fun _ =>
      .bind (.defaulted word) fun _ => .pure _)
    rfl (by decide)

end Rewards

namespace Timing

def shape : Shape := .flat fieldNames

theorem respects : Respects shape (ofData? dataNotation) :=
  have word := respects_word 64
  respects_record
    (.bind (.defaulted word) fun _ => .bind (.defaulted word) fun _ =>
      .bind (.defaulted word) fun _ => .bind (.defaulted word) fun _ =>
      .bind (.defaulted word) fun _ => .bind (.defaulted word) fun _ => .pure _)
    rfl (by decide)

end Timing

namespace InvestorProfile

def shape : Shape := .flat fieldNames

theorem respects : Respects shape (ofData? dataNotation) :=
  respects_record
    (.bind (.defaulted respects_int) fun _ => .bind (.defaulted respects_int) fun _ =>
      .bind (.defaulted respects_int) fun _ => .bind (.defaulted respects_int) fun _ =>
      .bind (.defaulted (respects_word 64)) fun _ => .pure _)
    rfl (by decide)

end InvestorProfile

namespace AppSettings

def shape : Shape := .flat fieldNames

theorem respects : Respects shape (ofData? dataNotation) :=
  respects_record
    (.bind (.defaulted respects_string) fun _ => .bind (.defaulted respects_string) fun _ =>
      .pure _)
    rfl (by decide)

end AppSettings

namespace BenchConfig

def shape : Shape :=
  .record [("target", Target.shape), ("scoring", Rewards.shape), ("timing", Timing.shape),
    ("investors", .list InvestorProfile.shape), ("settings", AppSettings.shape)]

theorem respects : Respects shape (ofData? dataNotation) :=
  respects_record
    (.bind (.defaulted Target.respects) fun _ => .bind (.defaulted Rewards.respects) fun _ =>
      .bind (.defaulted Timing.respects) fun _ =>
      .bind (.defaulted InvestorProfile.respects.list) fun _ =>
      .bind (.defaulted AppSettings.respects) fun _ => .pure _)
    rfl (by decide)

end BenchConfig

namespace Document

/-- What the value of a text stands for. -/
def shape : Document → Shape
  | side => .plain
  | trade => Trade.shape
  | order => Order.shape
  | candlestick => Candlestick.shape
  | infoSnapshot => InfoSnapshot.shape
  | errorReply => ErrorReply.shape
  | acceptedReply => AcceptedReply.shape
  | rewards => Rewards.shape
  | timing => Timing.shape
  | target => Target.shape
  | investorProfile => InvestorProfile.shape
  | appSettings => AppSettings.shape
  | benchConfig => BenchConfig.shape

theorem respects : ∀ d : Document, Respects d.shape d.ofJson?
  | side => Side.respects
  | trade => Trade.respects
  | order => Order.respects
  | candlestick => Candlestick.respects
  | infoSnapshot => InfoSnapshot.respects
  | errorReply => ErrorReply.respects
  | acceptedReply => AcceptedReply.respects
  | rewards => Rewards.respects
  | timing => Timing.respects
  | target => Target.respects
  | investorProfile => InvestorProfile.respects
  | appSettings => AppSettings.respects
  | benchConfig => BenchConfig.respects

theorem parse?_of_isTextOf {d : Document} {text : String} {v : JsonValue} (h : IsTextOf v text) :
    d.parse? text = d.ofJson? v := by
  unfold parse?
  rw [parse?_eq_some_iff.mpr h, Option.bind_some]

/-- What is read from a text is read from every text of its value, and of a value in which objects
have their members in another order or records more members of unknown names. So white space at any
place between tokens makes no difference. Nothing is read where a field comes twice, or where a
member of a record has a name that is no text. -/
theorem layout_irrelevant (d : Document) (text : String) :
    (∀ content, d.parse? text = some content → ∃ v, IsTextOf v text ∧ ¬ Spoilt d.shape v) ∧
    ∀ v, IsTextOf v text →
      (∀ w text', Relaid d.shape v w → IsTextOf w text' → d.parse? text' = d.parse? text) ∧
      (∀ cs gap ds ts us, text.toList = cs ++ ds → JsonToken.Laid cs ts → JsonToken.Laid ds us →
        tokens v = ts ++ us → (∀ c ∈ gap, JsonToken.isSpace c = true) →
        d.parse? (String.ofList (cs ++ (gap ++ ds))) = d.parse? text) ∧
      (Spoilt d.shape v → d.parse? text = none) := by
  refine ⟨fun content read => ?_, fun v isText => ⟨fun w text' relaid again => ?_, ?_, ?_⟩⟩
  · obtain ⟨v, value, reads⟩ := Option.bind_eq_some_iff.mp read
    exact ⟨v, parse?_eq_some_iff.mp value, d.respects.unspoilt reads⟩
  · rw [parse?_of_isTextOf isText, parse?_of_isTextOf again]
    exact d.respects.again relaid
  · intro cs gap ds ts us parts before after tokens blank
    rcases eq_or_ne gap [] with rfl | some
    · rw [List.nil_append, ← parts, String.ofList_toList]
    · have wide : IsTextOf v (String.ofList (cs ++ (gap ++ ds))) := by
        unfold IsTextOf
        rw [String.toList_ofList, tokens]
        exact before.append_gap blank some after
      rw [parse?_of_isTextOf isText, parse?_of_isTextOf wide]
  · intro spoilt
    rw [parse?_of_isTextOf isText]
    exact Option.eq_none_iff_forall_ne_some.mpr fun a reads => d.respects.unspoilt reads spoilt

/-- The body of an error with its fields in another order, with one more member that has a member of
a known name in it, and with white space. -/
theorem error_reply_relaid :
    errorReply.parse? "\x7b\"code\":404,\"err\":\"gone\"\x7d" = some ⟨404, "gone"⟩ ∧
      errorReply.parse?
        "\x7b \"err\": \"gone\",\n\"trace\": [\x7b\"err\": null\x7d], \"code\": 404 \x7d" =
        some ⟨404, "gone"⟩ ∧
      errorReply.parse? "\x7b\"code\":404,\"err\":\"gone\",\"code\":404\x7d" = none := by
  let code : JsonText × JsonValue := (some "code", .ofInt 404)
  let err : JsonText × JsonValue := (some "err", .ofString "gone")
  let trace : JsonValue := .array [.object [(some "err", .null)]]
  have text : IsTextOf (.object [code, err]) "\x7b\"code\":404,\"err\":\"gone\"\x7d" :=
    by decide +kernel
  have text' : IsTextOf (.object [err, (some "trace", trace), code])
      "\x7b \"err\": \"gone\",\n\"trace\": [\x7b\"err\": null\x7d], \"code\": 404 \x7d" :=
    by decide +kernel
  have twice : IsTextOf (.object [code, err, code])
      "\x7b\"code\":404,\"err\":\"gone\",\"code\":404\x7d" := by decide +kernel
  have relaid : Relaid errorReply.shape (.object [code, err])
      (.object [err, (some "trace", trace), code]) := by
    have unknown : errorReply.shape.IsUnknown "trace" := by
      change "trace" ∉ ErrorReply.fieldNames
      decide
    have perm : [(some "trace", trace), code, err].Perm [err, (some "trace", trace), code] :=
      List.perm_append_singleton err [(some "trace", trace), code]
    exact .trans (.insert unknown trace [code, err]) (.reorder perm)
  have read : errorReply.parse? "\x7b\"code\":404,\"err\":\"gone\"\x7d" = some ⟨404, "gone"⟩ := by
    rw [parse?_of_isTextOf text]
    rfl
  refine ⟨read, ?_, ?_⟩
  · exact (((layout_irrelevant errorReply _).2 _ text).1 _ _ relaid text').trans read
  · have known : "code" ∈ errorReply.shape.names := by
      change "code" ∈ ErrorReply.fieldNames
      decide
    exact ((layout_irrelevant errorReply _).2 _ twice).2.2 (.twice known (by decide))

/-- A member whose name is no text is none that an answer knows, and still there is no answer with
it. -/
theorem nameless_member_refused :
    IsTextOf (.object [(some "id", .ofInt 1)]) "\x7b\"id\":1\x7d" ∧
      acceptedReply.parse? "\x7b\"id\":1\x7d" = some ⟨1⟩ ∧
      IsTextOf (.object [(some "id", .ofInt 1), (none, .ofInt 2)])
        "\x7b\"id\":1,\"\\ud800\":2\x7d" ∧
      acceptedReply.parse? "\x7b\"id\":1,\"\\ud800\":2\x7d" = none := by
  have text : IsTextOf (.object [(some "id", .ofInt 1)]) "\x7b\"id\":1\x7d" :=
    by decide +kernel
  have text' : IsTextOf (.object [(some "id", .ofInt 1), (none, .ofInt 2)])
      "\x7b\"id\":1,\"\\ud800\":2\x7d" := by decide +kernel
  refine ⟨text, ?_, text', ?_⟩
  · rw [parse?_of_isTextOf text]
    rfl
  · rw [parse?_of_isTextOf text']
    rfl

end Document

end TradingLoad

import TradingLoad.Config.Load
import TradingLoad.Proofs.Http.LostBodies
import TradingLoad.Proofs.Url.Relative

namespace TradingLoad.Http

open Text

/-- The route of a call without the slash at its start. -/
def relativeRoute (c : Call) : List Char := (route c).toList.tail

theorem isRouteChar_of_mem_signedDigits {a : Int} {c : Char} (mem : c ∈ signedDigits a) :
    Url.isRouteChar c := by
  have digit {n : Nat} (mem : c ∈ digits n) : Url.isRouteChar c := by
    simp [Url.isRouteChar, isDigit_of_mem_digits mem]
  unfold signedDigits at mem
  split at mem
  · rcases List.mem_cons.mp mem with rfl | mem
    · rfl
    · exact digit mem
  · exact digit mem

theorem toList_route_deleteOrder (id : Int) :
    (route (.deleteOrder id)).toList = '/' :: ("order/".toList ++ signedDigits id) := by
  simp [route, signedDecimal]

/-- A route is a slash and a way on from there. -/
theorem isRoute_relativeRoute (c : Call) :
    (route c).toList = '/' :: relativeRoute c ∧ Url.IsRoute (relativeRoute c) := by
  have fixed : ∀ word ∈ ["/", "/signup", "/signin", "/info", "/orders"],
      word.toList = '/' :: word.toList.tail ∧ word.toList.tail.all Url.isRouteChar ∧
        word.toList.tail.head? ≠ some '/' := by decide
  obtain listed | ⟨id, rfl⟩ : route c ∈ ["/", "/signup", "/signin", "/info", "/orders"] ∨
      ∃ id, c = .deleteOrder id := by cases c <;> simp [route]
  · obtain ⟨shape, plain, start⟩ := fixed (route c) listed
    exact ⟨shape, List.all_eq_true.mp plain, start⟩
  · have shape : relativeRoute (.deleteOrder id) = "order/".toList ++ signedDigits id := by
      rw [relativeRoute, toList_route_deleteOrder, List.tail_cons]
    rw [shape]
    refine ⟨toList_route_deleteOrder id, ?_, by simp⟩
    intro c mem
    rcases List.mem_append.mp mem with word | number
    · have plain : "order/".toList.all Url.isRouteChar = true := by decide
      exact List.all_eq_true.mp plain c word
    · exact isRouteChar_of_mem_signedDigits number

theorem dropWhile_route (c : Call) : (route c).toList.dropWhile (· = '/') = relativeRoute c := by
  obtain ⟨shape, route⟩ := isRoute_relativeRoute c
  rw [shape]
  have start := route.start
  cases rest : relativeRoute c with
  | nil => rfl
  | cons d r =>
    rw [rest] at start
    have other : d ≠ '/' := fun same => start (congrArg _ same)
    simp [other]

/-- The result is not a failure of the program itself. -/
def IsExternal {α : Type} (x : Except Failure α) : Prop := ∀ detail, x ≠ .error (.internal detail)

theorem isExternal_ok {α : Type} (a : α) : IsExternal (.ok a) := fun _ same => nomatch same

theorem isExternal_bind {α β : Type} {x : Except Failure α} {f : α → Except Failure β}
    (first : IsExternal x) (each : ∀ a, IsExternal (f a)) : IsExternal (x >>= f) := by
  cases x with
  | error failure =>
    intro detail same
    exact first detail (congrArg _ (Except.error.inj same))
  | ok a => exact each a

theorem isExternal_text (a : Response) : IsExternal a.text := by
  intro detail same
  unfold Response.text at same
  split at same
  · cases same
  · split at same <;> cases same

theorem isExternal_decode {α : Type} (read : JsonValue → Option α) (a : Response) :
    IsExternal (Session.decode read a) := by
  unfold Session.decode
  apply isExternal_bind (isExternal_text a)
  intro body detail same
  split at same <;> cases same

theorem isExternal_replyOf (now : Timestamp) (c : Call) (a : Response) :
    IsExternal (Session.replyOf now c a) := by
  cases c with
  | top | signup | signin | deleteOrder => exact isExternal_ok ()
  | info => exact isExternal_decode _ a
  | getOrders => exact isExternal_decode _ a
  | addOrder =>
    apply isExternal_bind (isExternal_decode _ a)
    intro accepted detail same
    split at same <;> cases same

theorem isExternal_successOf (delivery : Delivery) : IsExternal (Session.successOf delivery) := by
  intro detail same
  unfold Session.successOf at same
  split at same
  · cases same
  · split at same <;> cases same

namespace Session

variable {ν : Type} {s : Session} {c : Call} {r : Request} {v : Url}

theorem isExternal_call (net : Network ν) (now : Timestamp) (x : ν) (made : s.requestOf c = .ok r) :
    IsExternal (s.call net now c x).1 := by
  rw [reply_call net now x made]
  exact isExternal_bind (isExternal_successOf _) (isExternal_replyOf now c)

theorem endpoint_of_ok (found : Url.read s.base (relativeRoute c) = .ok v) :
    s.endpoint (route c) = .ok v := by
  have joined : s.base.join (String.ofList ((route c).toList.dropWhile (· = '/'))) = .ok v := by
    rw [Url.join, String.toList_ofList, dropWhile_route, found]
  simp only [Session.endpoint, joined]

theorem endpoint_of_error {e : UrlError} (lost : Url.read s.base (relativeRoute c) = .error e) :
    s.endpoint (route c) =
      .error (.internal ("bad endpoint " ++ route c ++ ": " ++ e.message)) := by
  have joined : s.base.join (String.ofList ((route c).toList.dropWhile (· = '/'))) = .error e := by
    rw [Url.join, String.toList_ofList, dropWhile_route, lost]
  simp only [Session.endpoint, joined]

theorem exists_requestOf (found : s.endpoint (route c) = .ok v) : ∃ r, s.requestOf c = .ok r := by
  unfold requestOf
  rw [found]
  exact ⟨_, rfl⟩

theorem base_use (net : Network ν) (p : Session × ν) (u : Use) :
    (use net p u).1.base = p.1.base := by
  cases u with
  | retire => rfl
  | call now c =>
    cases made : p.1.requestOf c with
    | error failure => simp only [use, call, made]
    | ok r =>
      simp only [use, session_call now p.2 made]
      rfl

/-- A session keeps its base. -/
theorem base_useAll (net : Network ν) (p : Session × ν) (uses : List Use) :
    (useAll net p uses).1.base = p.1.base := by
  induction uses generalizing p with
  | nil => rfl
  | cons u uses ih => exact (ih (use net p u)).trans (base_use net p u)

/-- A session whose base is a folder goes to each route below it. -/
theorem exists_endpoint {done : List (List Char)} (folder : s.base.path = .steps (done ++ [[]]))
    (tidy : s.base.IsTidy) (c : Call) :
    ∃ v, s.endpoint (route c) = .ok v ∧ v.Extends s.base (relativeRoute c) := by
  obtain ⟨v, found, below⟩ := Url.extends_of_route (isRoute_relativeRoute c).2 folder tidy
  exact ⟨v, endpoint_of_ok found, below⟩

theorem endpoint_of_flat {text : List Char} (flat : s.base.path = .flat text) (c : Call) :
    s.endpoint (route c) = .error (.internal ("bad endpoint " ++ route c ++ ": " ++
      "relative URL with a cannot-be-a-base base")) :=
  endpoint_of_error (Url.read_route_of_flat (isRoute_relativeRoute c).2 flat)

theorem call_of_endpoint_error {failure : Failure} (lost : s.endpoint (route c) = .error failure)
    (net : Network ν) (now : Timestamp) (x : ν) : (s.call net now c x).1 = .error failure := by
  have unmade : s.requestOf c = .error failure := by
    unfold requestOf
    rw [lost]
    rfl
  unfold call
  rw [unmade]

theorem new_eq_ok {target : Target} {u : Url} (credentials : Credentials)
    (parsed : Url.parse target.baseUrl = .ok u) :
    ∃ s, Session.new target credentials = .ok s ∧ s.base = u.asFolder := by
  unfold Session.new
  rw [parsed]
  exact ⟨_, rfl, rfl⟩

/-- Settings that are fit for a run have a target with which a session can be made. If the path of
the target has steps, each call goes to its route in the folder of the target, with the target's
scheme, host and port, and whatever the session was used for before, no call fails in the program
itself. If the path is flat, each call does. -/
theorem calls_go_below_target {b : BenchConfig} (valid : b.check = .ok ())
    (credentials : Credentials) (net : Network ν) (x : ν) (uses : List Use) :
    ∃ u s, Url.parse b.target.baseUrl = .ok u ∧ Session.new b.target credentials = .ok s ∧
      let p := useAll net (s, x) uses
      (∀ steps, u.path = .steps steps →
        (∀ c, ∃ v, p.1.endpoint (route c) = .ok v ∧
          v.scheme = u.scheme ∧ v.host = u.host ∧ v.port = u.port ∧
          v.path.render = Url.withSlash u.path.render ++ relativeRoute c) ∧
        ∀ now c detail, (p.1.call net now c p.2).1 ≠ .error (.internal detail)) ∧
      (∀ text, u.path = .flat text → ∀ now c,
        (p.1.call net now c p.2).1 = .error (.internal ("bad endpoint " ++ route c ++ ": " ++
          "relative URL with a cannot-be-a-base base"))) := by
  obtain ⟨u, parsed⟩ : ∃ u, Url.parse b.target.baseUrl = .ok u := by
    unfold BenchConfig.check at valid
    split at valid
    · cases valid
    · next u parsed => exact ⟨u, parsed⟩
  obtain ⟨s, made, base⟩ := new_eq_ok credentials parsed
  refine ⟨u, s, parsed, made, ?_⟩
  intro p
  have base : p.1.base = u.asFolder := (base_useAll net (s, x) uses).trans base
  clear_value p
  have tidy : u.IsTidy := Url.isTidy_of_parse parsed
  constructor
  · intro steps hierarchical
    obtain ⟨done, closed⟩ := Url.Path.exists_closed_steps steps
    have folder : p.1.base.path = .steps (done ++ [[]]) := by
      rw [base, Url.asFolder, hierarchical, closed]
    have clear : Url.Slashless steps := by
      have clear := tidy.slashless
      rw [hierarchical] at clear
      exact clear
    have folderTidy : p.1.base.IsTidy := by
      rw [base]
      exact Url.Path.IsTidy.closed tidy
    have found := exists_endpoint folder folderTidy
    constructor
    · intro c
      obtain ⟨v, goes, below⟩ := found c
      refine ⟨v, goes, ?_, ?_, ?_, ?_⟩
      · rw [below.scheme, base, Url.asFolder]
      · rw [below.host, base, Url.asFolder]
      · rw [below.port, base, Url.asFolder]
      · rw [below.path, base, Url.asFolder, hierarchical, Url.render_closed clear]
    · intro now c detail
      obtain ⟨v, goes, -⟩ := found c
      obtain ⟨r, made⟩ := exists_requestOf goes
      exact isExternal_call net now p.2 made detail
  · intro text flat now c
    obtain ⟨flatter, closed⟩ := Url.exists_closed_flat text
    have flatBase : p.1.base.path = .flat flatter := by
      rw [base, Url.asFolder, flat, closed]
    exact call_of_endpoint_error (endpoint_of_flat flatBase c) net now p.2

/-- Settings with a target, and otherwise the standard ones. -/
def withTarget (baseUrl : String) : BenchConfig :=
  { BenchConfig.standard with target := { Target.standard with baseUrl } }

/-- A name and a port are read as a scheme and a flat path: these settings are fit for a run, and
there is no URL for any call. -/
theorem bad_endpoint_of_name_and_port :
    (withTarget "localhost:5000").check = .ok () ∧
      ∃ s, Session.new (withTarget "localhost:5000").target ⟨"a", "b", "c"⟩ = .ok s ∧
        s.endpoint "/" = .error (.internal
          "bad endpoint /: relative URL with a cannot-be-a-base base") ∧
        (s.call .unreachable .epoch .top ()).1 = .error (.internal
          "bad endpoint /: relative URL with a cannot-be-a-base base") := by
  refine ⟨by decide +kernel, ?_⟩
  have rehearsal : (Session.new (withTarget "localhost:5000").target ⟨"a", "b", "c"⟩).toOption.any
      (fun s => decide (s.base.path = .flat "5000/".toList)) = true := by decide +kernel
  obtain ⟨s, made, flat⟩ := exists_ok_of_any rehearsal
  have lost := endpoint_of_flat (of_decide_eq_true flat) .top
  exact ⟨s, made, lost, call_of_endpoint_error lost .unreachable .epoch ()⟩

theorem order_below_prefix :
    (withTarget "http://localhost:5000/isucoin").check = .ok () ∧
      ∃ s v,
        Session.new (withTarget "http://localhost:5000/isucoin").target ⟨"a", "b", "c"⟩ = .ok s ∧
        s.endpoint "/order/12" = .ok v ∧ v.path.render = "/isucoin/order/12".toList := by
  have valid : (withTarget "http://localhost:5000/isucoin").check = .ok () := by decide +kernel
  obtain ⟨u, s, parsed, made, below, -⟩ :=
    calls_go_below_target valid ⟨"a", "b", "c"⟩ .unreachable () []
  have rehearsal :
      (Url.parse (withTarget "http://localhost:5000/isucoin").target.baseUrl).toOption.any
        (fun u => decide (u.path = .steps ["isucoin".toList])) = true := by decide +kernel
  obtain ⟨w, same, path⟩ := exists_ok_of_any rehearsal
  obtain rfl := Except.ok.inj (parsed.symm.trans same)
  have path := of_decide_eq_true path
  obtain ⟨v, goes, -, -, -, place⟩ := (below _ path).1 (.deleteOrder 12)
  refine ⟨valid, s, v, made, goes, ?_⟩
  rw [place, path]
  decide

end Session

end TradingLoad.Http

import TradingLoad.Proofs.Ledger.Evolution
import TradingLoad.Proofs.Run.Tasks

namespace TradingLoad

variable {σ : Type}

/-- The exchange is honest with an account of a given credit. `book` is its list of the account's
orders, `stirs` what it does on its own. Calls other than for the list may fail in any way; then
they have done nothing. -/
structure Exchange.IsHonest (x : Exchange σ) (stirs : σ → σ → Prop) (book : σ → List Order)
    (credit : Int) : Prop where
  stirs {s s' : σ} (h : stirs s s') : Evolves (book s) (book s')
  note (now : Nat) (c : Call) (s : σ) : Evolves (book s) (book (x.note now c s))
  /-- The list is always told, as of some moment until the answer. -/
  tells (s : σ) : ∃ orders s', x.reply .getOrders s = (.ok orders, s') ∧
    Evolves (book s) orders ∧ Evolves orders (book s')
  /-- An order that is accepted is open, has a fresh identifier, and is paid for. -/
  accepts {s s' : σ} {side : Side} {amount price : Int} {o : Order}
    (h : x.reply (.addOrder side amount price) s = (.ok o, s')) :
    o.isOpen ∧ o.side = side ∧ o.amount = amount ∧ o.price = price ∧
      ∃ before, Evolves (book s) before ∧ Evolves (before ++ [o]) (book s') ∧
        o.id ∉ before.map Order.id ∧
        (side = .buy → amount * price ≤ credit + (Totals.exact before).freeCredit)
  /-- What is closed was open. -/
  closes {s s' : σ} {id : Int} {u : Unit} (h : x.reply (.deleteOrder id) s = (.ok u, s')) :
    ∃ before o at_, Evolves (book s) before ∧ before.find? (·.id = id) = some o ∧ o.isOpen ∧
      Evolves (Ledger.closeFirst id at_ before) (book s')
  /-- Any other reply is one without consequences. -/
  keeps {s s' : σ} {at_ : Timestamp} {c : Call} {r : c.Reply} (h : x.reply c s = (r, s'))
    (idle : Investor.operationOf at_ c r = none) : Evolves (book s) (book s')

/-- The least number above all identifiers. -/
def freshId : List Order → Int
  | [] => 1
  | o :: os => max (o.id + 1) (freshId os)

theorem lt_freshId {o : Order} {orders : List Order} (h : o ∈ orders) : o.id < freshId orders := by
  induction orders with
  | nil => simp at h
  | cons c cs ih =>
    rw [freshId]
    obtain rfl | h := List.mem_cons.mp h
    · omega
    · have := ih h
      omega

/-- An exchange that does what it is asked for, and nothing on the market. Its state is the list of
the orders of the account. -/
def Exchange.fair (credit : Int) : Exchange (List Order) where
  note _ _ book := book
  latency _ _ := some 0
  reply
    | .top, book => (.ok (), book)
    | .signup, book => (.ok (), book)
    | .signin, book => (.ok (), book)
    | .info cursor, book => (.ok ⟨cursor, none, 0, 0, [], [], [], false⟩, book)
    | .getOrders, book => (.ok book, book)
    | .addOrder side amount price, book =>
      if side = .buy ∧ credit + (Totals.exact book).freeCredit < amount * price then
        (.error (.status 400 "insufficient balance"), book)
      else
        let o := Order.placed (freshId book) side amount price .epoch
        (.ok o, book ++ [o])
    | .deleteOrder id, book =>
      if (book.find? (·.id = id)).any Order.isOpen then
        (.ok (), Ledger.closeFirst id .epoch book)
      else (.error (.status 404 "not found"), book)
  isRetired _ := false
  retire book := book

theorem fair_isHonest (credit : Int) : (Exchange.fair credit).IsHonest Evolves id credit where
  stirs h := h
  note _ _ book := .refl book
  tells book := ⟨book, book, rfl, .refl book, .refl book⟩
  accepts {book book' side amount price o} h := by
    simp only [Exchange.fair] at h
    split at h
    · simp at h
    · next paid =>
      obtain ⟨ho, rfl⟩ := Prod.mk.inj h
      obtain rfl := Except.ok.inj ho
      refine ⟨rfl, rfl, rfl, rfl, book, .refl book, .refl _, ?_, ?_⟩
      · intro known
        obtain ⟨o, ho, same⟩ := List.mem_map.mp known
        have := lt_freshId ho
        simp only [Order.placed] at same
        omega
      · intro buy
        simp only [buy, true_and] at paid
        omega
  closes {book book' id u} h := by
    simp only [Exchange.fair] at h
    split at h
    · next found =>
      obtain ⟨-, rfl⟩ := Prod.mk.inj h
      obtain ⟨o, ho, resting⟩ := (Option.any_eq_true _ _).mp found
      exact ⟨book, o, .epoch, .refl book, ho, resting, .refl _⟩
    · simp at h
  keeps {book book' at_ c r} h idle := by
    cases c with
    | addOrder side amount price =>
      simp only [Exchange.fair] at h
      split at h
      · obtain ⟨-, rfl⟩ := Prod.mk.inj h
        exact .refl book
      · obtain ⟨rfl, -⟩ := Prod.mk.inj h
        simp [Investor.operationOf] at idle
    | deleteOrder id =>
      simp only [Exchange.fair] at h
      split at h
      · obtain ⟨rfl, -⟩ := Prod.mk.inj h
        simp [Investor.operationOf] at idle
      · obtain ⟨-, rfl⟩ := Prod.mk.inj h
        exact .refl book
    | _ =>
      obtain ⟨-, rfl⟩ := Prod.mk.inj h
      exact .refl book

end TradingLoad

import TradingLoad.Proofs.Exchange.Honest
import TradingLoad.Proofs.Ledger.Merging
import Mathlib.Data.List.Perm.Basic
import Mathlib.Logic.Relation

namespace TradingLoad

/-- What an exchange has to do with an account: its orders, the calls that have not been served, and
the answers that have not been delivered. -/
structure Desk where
  book : List Order
  received : List Call
  answers : List ((c : Call) × c.Reply)

namespace Desk

def empty : Desk := ⟨[], [], []⟩

/-- A call is served. A failure of any kind has no effect; the orders are told as they are; an order
that is accepted becomes the last one; no other call adds, removes or renumbers an order. -/
inductive Serves (book : List Order) : (c : Call) → c.Reply → List Order → Prop
  | refuses {c failure} : Serves book c (.error failure) book
  | tells : Serves book .getOrders (.ok book) book
  | accepts {side amount price} {o stored : Order} (same : stored.id = o.id) :
      Serves book (.addOrder side amount price) (.ok o) (book ++ [stored])
  | does {c : Call} {answer : c.Answer} {later : List Order} (fetches : c ≠ .getOrders)
      (places : ∀ side amount price, c ≠ .addOrder side amount price)
      (ids : later.map Order.id = book.map Order.id) : Serves book c (.ok answer) later

/-- What an exchange does on its own: orders trade and close, and a call is served. -/
inductive Step : Desk → Desk → Prop
  | trade {d : Desk} {later : List Order} (ids : later.map Order.id = d.book.map Order.id) :
      Step d { d with book := later }
  | serve {d : Desk} {c : Call} {r : c.Reply} {rest : List Call} {later : List Order}
      (taken : d.received.Perm (c :: rest)) (serves : Serves d.book c r later) :
      Step d ⟨later, rest, ⟨c, r⟩ :: d.answers⟩

/-- So many things, in any order. -/
def Acts : Desk → Desk → Prop := Relation.ReflTransGen Step

end Desk

/-- An exchange keeps books. `desk` tells how it stands with the account, `stirs` what it does on
its own. A call that is under way is answered in the end with what it has been served with. -/
structure Exchange.KeepsBooks {σ : Type} (x : Exchange σ) (stirs : σ → σ → Prop) (desk : σ → Desk) :
    Prop where
  stirs {s s' : σ} (h : stirs s s') : (desk s).Acts (desk s')
  note (now : Nat) (c : Call) (s : σ) :
    Desk.Acts { desk s with received := c :: (desk s).received } (desk (x.note now c s))
  reply {s s' : σ} {c : Call} {r : c.Reply} (h : x.reply c s = (r, s'))
    (underWay : c ∈ (desk s).received ++ (desk s).answers.map Sigma.fst) :
    ∃ d rest, (desk s).Acts d ∧ d.answers.Perm (⟨c, r⟩ :: rest) ∧
      Desk.Acts { d with answers := rest } (desk s')

/-- The call concerns the orders. -/
def Call.isGuarded (c : Call) : Bool := c.task.region = some .trading

/-- The order that an answer accepts. -/
def acceptedId : ((c : Call) × c.Reply) → Option Int
  | ⟨.addOrder _ _ _, .ok o⟩ => some o.id
  | _ => none

theorem filterMap_cons_toList {α β : Type} (f : α → Option β) (x : α) (xs : List α) :
    (x :: xs).filterMap f = (f x).toList ++ xs.filterMap f := by
  rw [List.filterMap_eq_flatMap_toList, List.filterMap_eq_flatMap_toList, List.flatMap_cons]

namespace Desk

/-- The orders whose acceptance has not been delivered. -/
def owed (d : Desk) : List Int := d.answers.filterMap acceptedId

theorem isGuarded_of_acceptedId {a : (c : Call) × c.Reply} {id : Int}
    (h : acceptedId a = some id) : a.1.isGuarded := by
  obtain ⟨c, r⟩ := a
  cases c with
  | addOrder side amount price => rfl
  | _ => simp [acceptedId] at h

theorem length_filterMap_acceptedId_le (answers : List ((c : Call) × c.Reply)) :
    (answers.filterMap acceptedId).length ≤ (answers.map Sigma.fst).countP Call.isGuarded := by
  induction answers with
  | nil => exact Nat.le_refl _
  | cons a answers ih =>
    rw [List.filterMap_cons, List.map_cons, List.countP_cons]
    cases ha : acceptedId a with
    | none =>
      simp only
      omega
    | some id =>
      rw [if_pos (isGuarded_of_acceptedId ha)]
      simp only [List.length_cons]
      omega

/-- An exchange is in step with a caller that knows some orders and has some calls under way. -/
structure InStep (d : Desk) (calls : List Call) (known : List Int) : Prop where
  underWay : (d.received ++ d.answers.map Sigma.fst).Perm calls
  ids : d.book.map Order.id = known ++ d.owed
  told : ∀ orders, ⟨.getOrders, .ok orders⟩ ∈ d.answers → orders.map Order.id = known

variable {d d' : Desk} {calls : List Call} {known : List Int}

theorem InStep.congr (h : d.InStep calls known) {calls' : List Call} (same : calls.Perm calls') :
    d.InStep calls' known :=
  ⟨h.underWay.trans same, h.ids, h.told⟩

/-- Nothing is owed while a call about the orders has not been served. -/
theorem InStep.owed_eq_nil (h : d.InStep calls known) (single : calls.countP Call.isGuarded ≤ 1)
    {c : Call} {rest : List Call} (taken : d.received.Perm (c :: rest)) (guarded : c.isGuarded) :
    d.owed = [] := by
  have whole := (h.underWay.countP_eq Call.isGuarded).trans_le single
  have bound := length_filterMap_acceptedId_le d.answers
  rw [List.countP_append, taken.countP_eq, List.countP_cons_of_pos guarded] at whole
  apply List.eq_nil_of_length_eq_zero
  unfold owed
  omega

theorem InStep.step (h : d.InStep calls known) (single : calls.countP Call.isGuarded ≤ 1)
    (k : Step d d') : d'.InStep calls known := by
  cases k with
  | trade ids => exact ⟨h.underWay, ids.trans h.ids, h.told⟩
  | @serve c r rest later taken serves =>
    have underWay : (rest ++ (⟨c, r⟩ :: d.answers).map Sigma.fst).Perm calls := by
      refine .trans ?_ h.underWay
      refine List.perm_middle.trans ?_
      exact (taken.symm.append_right (d.answers.map Sigma.fst))
    cases serves with
    | @refuses c failure =>
      have none : acceptedId ⟨c, .error failure⟩ = none := by cases c <;> rfl
      refine ⟨underWay, ?_, ?_⟩
      · rw [owed, List.filterMap_cons_none none]
        exact h.ids
      · intro orders told
        obtain same | told := List.mem_cons.mp told
        · cases same
        · exact h.told orders told
    | tells =>
      have nothing := h.owed_eq_nil single taken rfl
      have ids := h.ids
      rw [nothing, List.append_nil] at ids
      refine ⟨underWay, ?_, ?_⟩
      · exact h.ids
      · intro orders told
        obtain same | told := List.mem_cons.mp told
        · cases same
          exact ids
        · exact h.told orders told
    | @accepts side amount price o stored same =>
      have nothing := h.owed_eq_nil single taken rfl
      have ids := h.ids
      rw [nothing, List.append_nil] at ids
      refine ⟨underWay, ?_, ?_⟩
      · have owes : owed ⟨d.book ++ [stored], rest, ⟨.addOrder side amount price, .ok o⟩ ::
            d.answers⟩ = o.id :: d.owed := rfl
        rw [owes, nothing, List.map_append, ids, List.map_singleton, same]
      · intro orders told
        obtain same | told := List.mem_cons.mp told
        · cases same
        · exact h.told orders told
    | @does c answer later fetches places ids =>
      have none : acceptedId ⟨c, .ok answer⟩ = none := by
        cases c with
        | addOrder side amount price => exact absurd rfl (places side amount price)
        | _ => rfl
      refine ⟨underWay, ?_, ?_⟩
      · rw [owed, List.filterMap_cons_none none]
        exact ids.trans h.ids
      · intro orders told
        obtain same | told := List.mem_cons.mp told
        · cases same
          exact absurd rfl fetches
        · exact h.told orders told

theorem InStep.acts (h : d.InStep calls known) (single : calls.countP Call.isGuarded ≤ 1)
    (k : d.Acts d') : d'.InStep calls known := by
  induction k with
  | refl => exact h
  | tail before last ih => exact ih.step single last

/-- A call is made. -/
theorem InStep.asks (h : d.InStep calls known) (c : Call) :
    InStep { d with received := c :: d.received } (c :: calls) known :=
  ⟨h.underWay.cons c, h.ids, h.told⟩

theorem eq_of_perm_of_length_le_one {α : Type} {xs ys : List α} (h : xs.Perm ys)
    (short : xs.length ≤ 1) : xs = ys := by
  cases xs with
  | nil => exact h.nil_eq
  | cons x xs =>
    obtain rfl : xs = [] := by
      apply List.eq_nil_of_length_eq_zero
      simp only [List.length_cons] at short
      omega
    exact (List.perm_singleton.mp h.symm).symm

/-- An answer is delivered. -/
theorem InStep.delivers (h : d.InStep calls known) (single : calls.countP Call.isGuarded ≤ 1)
    {c : Call} {r : c.Reply} {rest : List ((c : Call) × c.Reply)} {others : List Call}
    (answered : d.answers.Perm (⟨c, r⟩ :: rest)) (left : calls.Perm (c :: others)) :
    InStep { d with answers := rest } others (known ++ (acceptedId ⟨c, r⟩).toList) := by
  have whole := (h.underWay.countP_eq Call.isGuarded).trans_le single
  have rearranged : (d.answers.map Sigma.fst).Perm (c :: rest.map Sigma.fst) :=
    answered.map Sigma.fst
  rw [List.countP_append, rearranged.countP_eq, List.countP_cons] at whole
  have owes : d.owed = (acceptedId ⟨c, r⟩).toList ++ rest.filterMap acceptedId := by
    apply eq_of_perm_of_length_le_one
    · rw [← filterMap_cons_toList]
      exact answered.filterMap acceptedId
    · have bound := length_filterMap_acceptedId_le d.answers
      rw [rearranged.countP_eq, List.countP_cons] at bound
      unfold owed
      omega
  refine ⟨?_, ?_, ?_⟩
  · have underWay := h.underWay.trans left
    have moved : (d.received ++ d.answers.map Sigma.fst).Perm
        (c :: (d.received ++ rest.map Sigma.fst)) :=
      (rearranged.append_left d.received).trans List.perm_middle
    exact (moved.symm.trans underWay).cons_inv
  · rw [h.ids, owes, List.append_assoc]
    rfl
  · intro orders told
    have before := h.told orders (answered.mem_iff.mpr (List.mem_cons_of_mem _ told))
    cases ha : acceptedId ⟨c, r⟩ with
    | none => rw [before, Option.toList_none, List.append_nil]
    | some id =>
      -- a fetch cannot have been under way beside a placement
      have fetch : 0 < (rest.map Sigma.fst).countP Call.isGuarded :=
        List.countP_pos_iff.mpr ⟨.getOrders, List.mem_map_of_mem told, rfl⟩
      rw [if_pos (isGuarded_of_acceptedId ha)] at whole
      omega

/-- The first answer to a call, and the other answers. -/
def takeFirst (c : Call) :
    List ((c : Call) × c.Reply) → Option (c.Reply × List ((c : Call) × c.Reply))
  | [] => none
  | ⟨c', r⟩ :: answers =>
    if h : c' = c then some (h ▸ r, answers)
    else (takeFirst c answers).map fun found => (found.1, ⟨c', r⟩ :: found.2)

theorem takeFirst_eq_some {c : Call} {answers rest : List ((c : Call) × c.Reply)} {r : c.Reply}
    (h : takeFirst c answers = some (r, rest)) : answers.Perm (⟨c, r⟩ :: rest) := by
  induction answers generalizing rest with
  | nil => cases h
  | cons a answers ih =>
    obtain ⟨c', r'⟩ := a
    unfold takeFirst at h
    split at h
    · next same =>
      subst same
      cases h
      exact .refl _
    · obtain ⟨⟨r'', rest'⟩, found, taken⟩ := Option.map_eq_some_iff.mp h
      cases taken
      exact ((ih found).cons _).trans (.swap _ _ _)

theorem takeFirst_eq_none {c : Call} {answers : List ((c : Call) × c.Reply)}
    (h : takeFirst c answers = none) : c ∉ answers.map Sigma.fst := by
  induction answers with
  | nil => simp
  | cons a answers ih =>
    obtain ⟨c', r⟩ := a
    unfold takeFirst at h
    split at h
    · cases h
    · next other =>
      have absent := ih (Option.map_eq_none_iff.mp h)
      intro mem
      obtain same | mem := List.mem_cons.mp mem
      · exact other same.symm
      · exact absent mem

end Desk

/-- An exchange that serves a call when it is made, and delivers the answer some time later. -/
def Exchange.prompt (serve : (c : Call) → List Order → c.Reply × List Order)
    (milliseconds : Nat) : Exchange Desk where
  note _ c d := ⟨(serve c d.book).2, d.received, ⟨c, (serve c d.book).1⟩ :: d.answers⟩
  latency _ _ := some milliseconds
  reply c d :=
    match Desk.takeFirst c d.answers with
    | some (r, rest) => (r, { d with answers := rest })
    | none =>
      ((serve c d.book).1, { d with book := (serve c d.book).2, received := d.received.erase c })
  isRetired _ := false
  retire := id

theorem prompt_keepsBooks {serve : (c : Call) → List Order → c.Reply × List Order}
    (serves : ∀ c book, Desk.Serves book c (serve c book).1 (serve c book).2) (milliseconds : Nat) :
    (Exchange.prompt serve milliseconds).KeepsBooks Desk.Acts id where
  stirs h := h
  note now c d := .single (.serve (.refl _) (serves c d.book))
  reply {d d' c r} h underWay := by
    simp only [Exchange.prompt, id_eq] at h underWay ⊢
    split at h
    · next r' rest found =>
      obtain ⟨rfl, rfl⟩ := Prod.mk.inj h
      exact ⟨d, rest, .refl, Desk.takeFirst_eq_some found, .refl⟩
    · next missing =>
      obtain ⟨rfl, rfl⟩ := Prod.mk.inj h
      have received := (List.mem_append.mp underWay).resolve_right (Desk.takeFirst_eq_none missing)
      exact ⟨_, _, .single (.serve (List.perm_cons_erase received) (serves c d.book)), .refl _,
        .refl⟩

/-- What the fair exchange does with a call is to serve it. -/
theorem serves_fair (credit : Int) (c : Call) (book : List Order) :
    Desk.Serves book c ((Exchange.fair credit).reply c book).1
      ((Exchange.fair credit).reply c book).2 := by
  cases c with
  | getOrders => exact .tells
  | addOrder side amount price =>
    simp only [Exchange.fair]
    split
    · exact .refuses
    · exact .accepts rfl
  | deleteOrder id =>
    simp only [Exchange.fair]
    split
    · exact .does (by simp) (by simp) (Ledger.ids_closeFirst id .epoch book)
    · exact .refuses
  | _ => exact .does (by simp) (by simp) rfl

end TradingLoad

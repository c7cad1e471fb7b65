namespace TradingLoad.Http

/-- How many requests in a row have had no response, and whether the client has given up. -/
structure Health where
  /-- Requests without a response since the last response. -/
  failures : Nat
  retired : Bool
  deriving DecidableEq, Repr

namespace Health

def fresh : Health := ⟨0, false⟩

/-- A request had no response; `limit` in a row are too many, where 0 stands for no limit. -/
def unanswered (limit : Nat) (h : Health) : Health :=
  { failures := h.failures + 1
    retired := h.retired || (0 < limit && limit ≤ h.failures + 1) }

/-- A request had a response, whatever it says. -/
def answered (h : Health) : Health := { h with failures := 0 }

def retire (h : Health) : Health := { h with retired := true }

@[simp] theorem failures_unanswered (limit : Nat) (h : Health) :
    (h.unanswered limit).failures = h.failures + 1 := rfl

@[simp] theorem failures_answered (h : Health) : h.answered.failures = 0 := rfl

@[simp] theorem failures_retire (h : Health) : h.retire.failures = h.failures := rfl

theorem retired_unanswered {limit : Nat} {h : Health} :
    (h.unanswered limit).retired = true ↔
      h.retired = true ∨ 0 < limit ∧ limit ≤ h.failures + 1 := by
  simp [unanswered]

@[simp] theorem retired_answered (h : Health) : h.answered.retired = h.retired := rfl

@[simp] theorem retired_retire (h : Health) : h.retire.retired = true := rfl

end Health

end TradingLoad.Http

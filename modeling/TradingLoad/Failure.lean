import TradingLoad.Text.Decimal

namespace TradingLoad

open Text

/-- Why no complete answer of the exchange arrived. -/
inductive TransportCause where
  | unreachable
  | connectionClosed
  | timedOut
  | tooManyRedirects
  | unsupportedScheme (scheme : String)
  | bodyIncomplete
  deriving DecidableEq, Repr

namespace TransportCause

def message : TransportCause → String
  | unreachable => "the exchange cannot be reached"
  | connectionClosed => "connection closed before an answer"
  | timedOut => "no answer in time"
  | tooManyRedirects => "too many redirects"
  | unsupportedScheme scheme => "scheme not supported: " ++ scheme
  | bodyIncomplete => "connection closed inside an answer"

end TransportCause

/-- Why a call, a task or the set-up did not do what was asked. -/
inductive Failure where
  /-- No complete answer arrived. -/
  | transport (cause : TransportCause)
  /-- An answer was not the JSON that it should be. -/
  | malformed (detail : String)
  /-- The exchange answered with a status other than success. -/
  | status (code : Nat) (message : String)
  /-- An answer was well-formed but makes no sense. -/
  | invalidResponse (detail : String)
  | configuration (detail : String)
  /-- An open sell order is missing from the list of the exchange. -/
  | sellOrderVanished (orderId : Int)
  /-- The latest order is not the last one in the list of the exchange. -/
  | orderNotReflected (expected : Int) (actual : Option Int)
  /-- More is reserved than held. -/
  | balanceDesync (availableCredit availableInventory : Int)
  /-- A composite was given more tasks than its capacity. -/
  | compositeFull (capacity : Nat)
  /-- An investor was started twice. -/
  | alreadyStarted (account : String)
  | internal (detail : String)
  deriving DecidableEq, Repr

namespace Failure

/-- An identifier that may be missing, as shown in messages. -/
def optionalId : Option Int → String
  | none => "None"
  | some id => "Some(" ++ signedDecimal id ++ ")"

def message : Failure → String
  | transport cause => "HTTP request error: " ++ cause.message
  | malformed detail => "JSON parsing error: " ++ detail
  | status code text => "Exchange returned status " ++ decimal code ++ ": " ++ text
  | invalidResponse detail => "Invalid API response: " ++ detail
  | configuration detail => "Configuration error: " ++ detail
  | sellOrderVanished id =>
    "Sell order " ++ signedDecimal id ++ " vanished from the exchange without being cancelled"
  | orderNotReflected expected actual =>
    "Latest order " ++ signedDecimal expected ++ " is not reflected by the exchange (latest there: "
      ++ optionalId actual ++ ")"
  | balanceDesync credit inventory =>
    "Balance desync: available credit " ++ signedDecimal credit ++ ", available inventory "
      ++ signedDecimal inventory
  | compositeFull capacity => "Serial task is full (capacity " ++ decimal capacity ++ ")"
  | alreadyStarted account => "Investor " ++ account ++ " has already been started"
  | internal detail => "Internal error: " ++ detail

/-- The status with which the exchange answered, if it answered with one. -/
def statusCode : Failure → Option Nat
  | status code _ => some code
  | _ => none

def isNotFound (f : Failure) : Bool := f.statusCode = some 404

/-- A word occurs in a text. -/
def occursIn (word : List Char) : List Char → Bool
  | [] => word.isEmpty
  | c :: r => word.isPrefixOf (c :: r) || occursIn word r

/-- The account of a sign-up is there already. -/
def isAlreadyExists : Failure → Bool
  | status code text => code = 409 || occursIn "already exists".toList text.toList
  | _ => false

/-- The bank refused a buy order. The letters of the word have no capitals outside of ASCII that
leave the word whole, so folding ASCII letters is enough. -/
def isInsufficientBalance : Failure → Bool
  | status _ text =>
    occursIn "銀行残高が足りません".toList text.toList ||
      occursIn "insufficient".toList (text.toList.map Char.toLower)
  | _ => false

/-- The books of investor and exchange differ in a way that should never happen. -/
def isConsistencyViolation : Failure → Bool
  | sellOrderVanished _ => true
  | orderNotReflected _ _ => true
  | balanceDesync _ _ => true
  | _ => false

def isTransport : Failure → Bool
  | transport _ => true
  | _ => false

end Failure

end TradingLoad

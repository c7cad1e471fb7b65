import TradingLoad.Url.DomainName
import TradingLoad.Url.Percent

namespace TradingLoad

inductive UrlError where
  | emptyHost
  | invalidDomainName
  | invalidPort
  | invalidIpv4
  | invalidIpv6
  /-- A host outside of the schemes of the web has a character that no host has. -/
  | invalidHostCharacter
  | relativeWithoutBase
  /-- The base has no hierarchy in which a relative URL could be followed. -/
  | relativeToFlatBase
  deriving DecidableEq, Repr

def UrlError.message : UrlError → String
  | emptyHost => "empty host"
  | invalidDomainName => "invalid international domain name"
  | invalidPort => "invalid port number"
  | invalidIpv4 => "invalid IPv4 address"
  | invalidIpv6 => "invalid IPv6 address"
  | invalidHostCharacter => "invalid domain character"
  | relativeWithoutBase => "relative URL without a base"
  | relativeToFlatBase => "relative URL with a cannot-be-a-base base"

namespace Url

open Text

inductive Host where
  | name (text : List Char)
  | ipv4 (address : Nat)
  | ipv6 (groups : List Nat)
  deriving DecidableEq, Repr

namespace Host

/-- A text in brackets is an address of version 6. -/
def bracketed (cs : List Char) : Except UrlError Host :=
  match cs.getLast? with
  | some ']' =>
    match Ipv6.parse? cs.dropLast with
    | some groups => .ok (ipv6 groups)
    | none => .error .invalidIpv6
  | _ => .error .invalidIpv6

/-- The host of a scheme of the web: a domain name or an address. -/
def ofSpecial : List Char → Except UrlError Host
  | '[' :: r => bracketed r
  | cs =>
    match DomainName.toAscii? (ofUtf8 (unescape cs)) with
    | none => .error .invalidDomainName
    | some [] => .error .emptyHost
    | some domain =>
      if Ipv4.isMeant domain then
        match Ipv4.parse? domain with
        | some address => .ok (ipv4 address)
        | none => .error .invalidIpv4
      else .ok (name domain)

/-- Characters that stand in no host of any scheme. -/
def forbiddenMarks : List Char :=
  ['\x00', '\t', '\n', '\r', ' ', '#', '/', ':', '<', '>', '?', '@', '[', '\\', ']', '^', '|']

/-- The host of another scheme, of which nothing is known. -/
def ofOther : List Char → Except UrlError Host
  | '[' :: r => bracketed r
  | cs =>
    if cs.any forbiddenMarks.contains then .error .invalidHostCharacter
    else .ok (name (escape .control cs))

def render : Host → List Char
  | name text => text
  | ipv4 address => Ipv4.render address
  | ipv6 groups => '[' :: Ipv6.render groups ++ [']']

end Host

end Url

end TradingLoad

import TradingLoad.Url.Basic

namespace TradingLoad.Url

/-- The text with dots that are escaped taken as dots. -/
def plainDots : List Char → List Char
  | '%' :: '2' :: 'e' :: r => '.' :: plainDots r
  | '%' :: '2' :: 'E' :: r => '.' :: plainDots r
  | c :: r => c :: plainDots r
  | [] => []

def isDot (step : List Char) : Bool := plainDots step = ['.']

def isDotDot (step : List Char) : Bool := plainDots step = ['.', '.']

/-- The letter of a drive, with a colon or a bar after it. -/
def isDrive : List Char → Bool
  | [c, ':'] => c.isAlpha
  | [c, '|'] => c.isAlpha
  | _ => false

/-- A step as it is kept: escaped, the letter of a drive with a colon. -/
def keptStep (kind : SchemeKind) (step : List Char) : List Char :=
  if kind = .file ∧ isDrive step then step.take 1 ++ [':']
  else escape .path step

/-- The steps without the last one, if that is no drive. -/
def stepBack (kind : SchemeKind) (done : List (List Char)) : List (List Char) :=
  if kind = .file ∧ (done.getLast?.any isDrive) then done else done.dropLast

/-- Follows steps from where other steps have led. If the last one leads nowhere or back, the path
ends with an empty step. -/
def follow (kind : SchemeKind) : List (List Char) → List (List Char) → List (List Char)
  | done, [] => done
  | done, [step] =>
    if isDotDot step then stepBack kind done ++ [[]]
    else if isDot step then done ++ [[]]
    else done ++ [keptStep kind step]
  | done, step :: next :: rest =>
    if isDotDot step then follow kind (stepBack kind done) (next :: rest)
    else if isDot step then follow kind done (next :: rest)
    else follow kind (done ++ [keptStep kind step]) (next :: rest)

/-- The separators of steps: schemes of the web and of files take a backslash for a slash. -/
def isSlash (kind : SchemeKind) (c : Char) : Bool := c = '/' || (kind ≠ .other && c = '\\')

/-- The pieces of a text between slashes. -/
def splitSteps (kind : SchemeKind) (cs : List Char) : List (List Char) :=
  splitAt '/' (cs.map fun c => if isSlash kind c then '/' else c)

/-- Empty steps at the start of a path to a file do not count. -/
def withoutEmptyStart : List (List Char) → List (List Char)
  | [] :: step :: rest => withoutEmptyStart (step :: rest)
  | steps => steps

/-- The path that a text leads to from the place where some steps end. -/
def pathFrom (kind : SchemeKind) (done : List (List Char)) (cs : List Char) : Path :=
  let steps := follow kind done (splitSteps kind cs)
  .steps (if kind = .file then withoutEmptyStart steps else steps)

end TradingLoad.Url

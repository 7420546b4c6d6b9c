import Rowwise.Regex.Replace
import Rowwise.Value.Cast

/-!
# Rowwise.Function.Text — functions of texts

Positions and lengths count characters.  Unless said otherwise a missing argument gives a missing result.
-/

namespace Rowwise

/-- Functions of texts. -/
inductive TextFunction where
  /-- The canonical text of any value. -/
  | text
  /-- The number that a text says. -/
  | parse
  | cut
  | replace
  | replaceAll
  | lower
  | upper
  | trim
  | length
  | index
  | char
  | compare
  | contains
  | equals
  | starts
  | ends
  /-- True if the whole text matches a pattern. -/
  | wholeMatch
  /-- True if some part of the text matches a pattern. -/
  | partMatch
  | first
  | last
  | escapeMarkup
deriving DecidableEq, Repr

/-- What a function needs of a pattern. -/
def patternSource (whole : Bool) (pattern : String) : List Char :=
  if whole then "^(?:".toList ++ pattern.toList ++ ")$".toList else pattern.toList

/-- The pattern of a function, with the names of its groups. -/
def readPattern (whole : Bool) (pattern : String) : Except ValueCause (Regex × List (List Char × Nat)) :=
  match Regex.read (patternSource whole pattern) with
  | .ok r => .ok r
  | .error .malformed => .error (.badRegex pattern)
  | .error .tooLarge => .error (.largeRegex pattern)

/-- A count of characters. -/
def characterCount (what : String) (x : Float) : Except ValueCause Nat :=
  match Double.parts? x with
  | none => .error (.notCount what x)
  | some p => if p.fraction = 0 ∧ 0 ≤ p.toInt then .ok (Double.toNat64 x) else .error (.notCount what x)

/-- The greatest position that is counted. -/
def maxPosition : Nat := twoTo 64 - 1

namespace TextFunction

/-- The type of the results. -/
def result : TextFunction → ValueType
  | parse => .double
  | length | index | compare => .integer
  | contains | equals | starts | ends | wholeMatch | partMatch => .boolean
  | _ => .text

/-- `size` characters from the position `start` on, all of which must be there. -/
def cutAt (s : String) (start size : Float) : Except ValueCause Value := do
  let start ← characterCount "start" start
  let size ← characterCount "length" size
  let total := s.length
  let finish := min (start + size) maxPosition
  if total < finish then .error (.cutOutside start finish total)
  else return .ofChars ((s.toList.drop start).take size)

/-- The character at a position. -/
def charAt (s : String) (index : Float) : Except ValueCause Value := do
  let index ← characterCount "index" index
  match s.toList[index]? with
  | some c => return .ofChars [c]
  | none => .error (.indexOutside index s.length)

/-- The number that an order counts as. -/
def orderNumber : Ordering → Int
  | .lt => -1
  | .eq => 0
  | .gt => 1

/-- The function of arguments none of which is missing; they must be as many and of such types as it takes. -/
def runPresent (f : TextFunction) (args : List Value) : Except ValueCause Value :=
  match f, args with
  | cut, [.text (some s), start, n] => cutAt s start.toNumber n.toNumber
  | replace, [.text (some s), .text (some search), .text (some replacement)] =>
    if search.isEmpty then .error .emptySearch
    else .ok (.ofChars (Text.replace search.toList replacement.toList s.toList))
  | replaceAll, [.text (some s), .text (some pattern), .text (some replacement)] => do
    let (r, names) ← readPattern false pattern
    return .ofChars (r.replaceAll names replacement.toList s.toList)
  | lower, [.text (some s)] => .ok (.ofChars (Text.lower s.toList))
  | upper, [.text (some s)] => .ok (.ofChars (Text.upper s.toList))
  | trim, [.text (some s)] => .ok (.ofChars (Text.trim s.toList))
  | length, [.text (some s)] => .ok (.ofInt s.length)
  | index, [.text (some s), .text (some search)] =>
    .ok (.ofInt (match Text.indexOf? search.toList s.toList with
      | some i => (i : Int)
      | none => -1))
  | char, [.text (some s), i] => charAt s i.toNumber
  | compare, [.text (some s), .text (some t)] => .ok (.ofInt (orderNumber (Ord.compare s t)))
  | contains, [.text (some s), .text (some search)] => .ok (.ofBool (Text.occursIn search.toList s.toList))
  | equals, [.text (some s), .text (some t)] => .ok (.ofBool (s = t))
  | starts, [.text (some s), .text (some p)] => .ok (.ofBool (Text.startsWith p.toList s.toList))
  | ends, [.text (some s), .text (some p)] => .ok (.ofBool (Text.endsWith p.toList s.toList))
  | wholeMatch, [.text (some s), .text (some pattern)] => do
    let (r, _) ← readPattern true pattern
    return .ofBool (r.occursIn s.toList)
  | partMatch, [.text (some s), .text (some pattern)] => do
    let (r, _) ← readPattern false pattern
    return .ofBool (r.occursIn s.toList)
  | first, [.text (some s), n] => do
    return .ofChars (s.toList.take (← characterCount "length" n.toNumber))
  | last, [.text (some s), n] => do
    let n ← characterCount "length" n.toNumber
    return .ofChars (s.toList.drop (s.length - n))
  | escapeMarkup, [.text (some s)] => .ok (.ofChars (Text.escapeMarkup s.toList))
  | _, _ => .error .lostArgument

/-- The value of the function. -/
def run (f : TextFunction) (args : List Value) : Except ValueCause Value :=
  match f, args with
  | text, [v] => .ok (.text v.toText?)
  | parse, [.text (some s)] => .ok (.double (Value.numberOfText s))
  | f, args => if args.any Value.isMissing then .ok (.missing f.result) else f.runPresent args

end TextFunction

end Rowwise

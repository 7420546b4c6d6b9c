import Rowwise.Double.Decimal
import Rowwise.Regex.Search
import Rowwise.Text.Search

/-!
# Rowwise.Regex.Pattern — reading patterns

A pattern is alternatives of sequences of repeated parts.  A part is a character, a class in brackets, an escape, a group
or a condition.  Flags change the meaning of what follows them up to the end of the group.  Conditions on what stands
around a match and references to earlier groups are not part of the language; such patterns are refused.
-/

namespace Rowwise.Regex

/-! ### The state of reading -/

/-- The flags that change the meaning of what follows. -/
structure Flags where
  anyCase : Bool := false
  lines : Bool := false
  dotAll : Bool := false
  /-- Repetitions prefer few rounds. -/
  lazy : Bool := false
  unicode : Bool := true
  /-- A return ends lines, too. -/
  returns : Bool := false
  /-- Blanks and comments in the pattern have no meaning. -/
  spaced : Bool := false
deriving DecidableEq, Repr

/-- What is left of a pattern, and what has been read of it. -/
structure PatternState where
  rest : List Char
  flags : Flags := {}
  groups : Nat := 0
  /-- The names of groups. -/
  names : List (List Char × Nat) := []
  /-- True if a repetition was left out because it would make the pattern too large. -/
  large : Bool := false

/-- Reads a part of a pattern, or refuses it. -/
abbrev PatternReader (α : Type) := StateT PatternState Option α

namespace PatternReader

/-- Refuses the pattern. -/
def refuse {α : Type} : PatternReader α := fun _ => none

/-- The value, if there is one. -/
def need {α : Type} : Option α → PatternReader α
  | some a => pure a
  | none => refuse

/-- The next character. -/
def peek : PatternReader (Option Char) := do return (← get).rest.head?

/-- The characters left. -/
def left : PatternReader (List Char) := do return (← get).rest

/-- Goes on with these characters. -/
def goTo (cs : List Char) : PatternReader Unit := modify fun s => { s with rest := cs }

/-- Passes one character. -/
def pass : PatternReader Unit := modify fun s => { s with rest := s.rest.drop 1 }

/-- What is left after blanks and comments. -/
def afterSpace : (comment : Bool) → List Char → List Char
  | _, [] => []
  | true, c :: cs => afterSpace (c != '\n') cs
  | false, c :: cs =>
    if Text.isBlank c then afterSpace false cs else if c = '#' then afterSpace true cs else c :: cs

/-- Passes blanks and comments where they have no meaning. -/
def space : PatternReader Unit :=
  modify fun s => if s.flags.spaced then { s with rest := afterSpace false s.rest } else s

/-- Passes one character and the space after it. -/
def step : PatternReader Unit := do
  pass
  space

/-- The next character, which must be there, with the space after it. -/
def next : PatternReader Char := do
  match ← peek with
  | some c => step; return c
  | none => refuse

/-- Passes these characters if they come next. -/
def accept (s : String) : PatternReader Bool := do
  match Text.dropPrefix? s.toList (← left) with
  | some rest => goTo rest; return true
  | none => return false

/-- Refuses the pattern unless this character comes next, and passes it. -/
def expect (c : Char) : PatternReader Unit := do
  if (← peek) = some c then pass else refuse

/-- The flags in force. -/
def flags : PatternReader Flags := do return (← get).flags

/-- Changes the flags. -/
def setFlags (f : Flags) : PatternReader Unit := modify fun s => { s with flags := f }

/-- The number of a new group. -/
def newGroup : PatternReader Nat := do
  modify fun s => { s with groups := s.groups + 1 }
  return (← get).groups

end PatternReader

open PatternReader

/-! ### Characters and numbers -/

/-- True for the characters that patterns use. -/
def isMeta (c : Char) : Bool :=
  c ∈ ['\\', '.', '+', '*', '?', '(', ')', '|', '[', ']', '\x7b', '\x7d', '^', '$', '#', '&', '-', '~']

/-- True for the characters that may stand after a backslash for themselves. -/
def isEscapable (c : Char) : Bool :=
  isMeta c || (c.toNat < 128 && !c.isAlphanum && c ≠ '<' && c ≠ '>')

/-- The greatest count of a repetition. -/
def maxCount : Nat := 4294967295

/-- Takes the digits that come next. -/
def takeDigits : Nat → List Char → PatternReader (List Char)
  | 0, taken => return taken.reverse
  | n + 1, taken => do
    match ← peek with
    | some c => if c.isDigit then step; takeDigits n (c :: taken) else return taken.reverse
    | none => return taken.reverse

/-- Passes blanks. -/
def passBlanks : PatternReader Unit := do
  goTo ((← left).dropWhile Text.isBlank)
  space

/-- A number with blanks around it; none if there are no digits. -/
def count : PatternReader (Option Nat) := do
  goTo ((← left).dropWhile Text.isBlank)
  let digits ← takeDigits (← left).length []
  passBlanks
  if digits.isEmpty then return none
  let n := Double.ofDigits digits
  if n ≤ maxCount then return some n else refuse

/-- The character of that number. -/
def characterOf (digits : List Char) : PatternReader Char := do
  let n ← need (digits.foldlM (fun n c => (Text.hexDigit? c).map (16 * n + ·)) 0)
  if n.isValidChar then return Char.ofNat n else refuse

/-- Takes a number of characters, each followed by space. -/
def takeSome : Nat → PatternReader (List Char)
  | 0 => return []
  | n + 1 => do
    let c ← next
    return c :: (← takeSome n)

/-- Takes the characters up to a closing one, and passes it. -/
def takeUntil (close : Char) : Nat → PatternReader (List Char)
  | 0 => refuse
  | n + 1 => do
    match ← peek with
    | none => refuse
    | some c =>
      if c = close then pass; return []
      else
        step
        return c :: (← takeUntil close n)

/-- The character that hexadecimal digits name: in braces, or a fixed number of them. -/
def hexCharacter (width : Nat) : PatternReader Char := do
  if (← peek) = some '\x7b' then
    step
    let digits ← takeUntil '\x7d' ((← left).length + 1)
    if digits.isEmpty then refuse else characterOf digits
  else characterOf (← takeSome width)

/-! ### Classes -/

/-- The complement, if wanted. -/
def negatedIf (negated : Bool) (c : CharClass) : CharClass := if negated then .complement c else c

/-- A class that a letter names.  Without Unicode it holds ASCII characters only and has no complement. -/
def letterClass (f : Flags) (unicode ascii : CharClass) (negated : Bool) : Option CharClass :=
  if f.unicode then some (negatedIf negated unicode) else if negated then none else some ascii

/-- The class of a property: a letter, or a name in braces, perhaps with a value. -/
def propertyClass (negated : Bool) : PatternReader CharClass := do
  let f ← flags
  if !f.unicode then refuse
  let c ← next
  let (c, negated) ←
    if c = '\x7b' then do
      let name ← takeUntil '\x7d' ((← left).length + 1)
      match Text.splitUnequal? name with
      | some (key, value) => pure (← need (CharClass.propertyValue? key value), !negated)
      | none =>
        match (Text.splitAt? ':' name).or (Text.splitAt? '=' name) with
        | some (key, value) => pure (← need (CharClass.propertyValue? key value), negated)
        | none => pure (← need (CharClass.property? name), negated)
    else pure (← need (CharClass.property? [c]), negated)
  return negatedIf negated (if f.anyCase then .anyCase c else c)

/-- What an escape stands for. -/
inductive Escaped where
  | character (c : Char)
  | set (c : CharClass)
  | anchor (a : Anchor)

/-- The edges of words that have names. -/
def wordAnchor? (ascii : Bool) : List Char → Option Anchor
  | cs =>
    match String.ofList cs with
    | "start" => some (.wordStart ascii)
    | "end" => some (.wordEnd ascii)
    | "start-half" => some (.noWordBefore ascii)
    | "end-half" => some (.noWordAfter ascii)
    | _ => none

/-- True for the characters in the names of edges. -/
def isAnchorName (c : Char) : Bool := c.isAlpha || c = '-'

/-- Takes the name of an edge. -/
def takeAnchorName : Nat → PatternReader (List Char)
  | 0 => return []
  | n + 1 => do
    match ← peek with
    | some c => if isAnchorName c then step; return c :: (← takeAnchorName n) else return []
    | none => return []

/-- An edge of a word: plain, or with a name in braces.  Other braces are left to be read as a repetition. -/
def wordEdge : PatternReader Anchor := do
  let ascii := !(← flags).unicode
  let here ← left
  if here.head? ≠ some '\x7b' then return .wordEdge ascii
  step
  match ← peek with
  | none => refuse
  | some c =>
    if !isAnchorName c then
      goTo here
      return .wordEdge ascii
    let name ← takeAnchorName (← left).length
    expect '\x7d'
    need (wordAnchor? ascii name)

/-- An escape; its backslash has been passed. -/
def escape : PatternReader Escaped := do
  let f ← flags
  let c ← need (← peek)
  if c = 'x' ∨ c = 'u' ∨ c = 'U' then
    step
    return .character (← hexCharacter (if c = 'x' then 2 else if c = 'u' then 4 else 8))
  if c = 'p' ∨ c = 'P' then
    step
    return .set (← propertyClass (c = 'P'))
  pass
  if isEscapable c then return .character c
  match c with
  | 'd' | 'D' => return .set (← need (letterClass f .digit .asciiDigit (c = 'D')))
  | 's' | 'S' => return .set (← need (letterClass f .blank .asciiBlank (c = 'S')))
  | 'w' | 'W' => return .set (← need (letterClass f .word .asciiWord (c = 'W')))
  | 'a' => return .character '\x07'
  | 'f' => return .character '\x0c'
  | 't' => return .character '\t'
  | 'n' => return .character '\n'
  | 'r' => return .character '\r'
  | 'v' => return .character '\x0b'
  | 'A' => return .anchor .textStart
  | 'z' => return .anchor .textEnd
  | 'b' => return .anchor (← wordEdge)
  | 'B' => return .anchor (.insideOrOutside (!f.unicode))
  | '<' => return .anchor (.wordStart (!f.unicode))
  | '>' => return .anchor (.wordEnd (!f.unicode))
  | _ => refuse

/-- The operations between the parts of a class. -/
def classOperation? : List Char → Option ((CharClass → CharClass → CharClass) × List Char)
  | '&' :: '&' :: rest => some (.common, rest)
  | '-' :: '-' :: rest => some (.without, rest)
  | '~' :: '~' :: rest => some (.either, rest)
  | _ => none

/-- A class named between brackets and colons. -/
def bracketName? : List Char → Option (CharClass × List Char)
  | '[' :: ':' :: rest => do
    let (negated, rest) := match rest with
      | '^' :: rest => (true, rest)
      | rest => (false, rest)
    let (name, rest) ← Text.splitAt? ':' rest
    let c ← CharClass.bracketNames.lookup (String.ofList name)
    match rest with
    | ']' :: rest => some (negatedIf negated c, rest)
    | _ => none
  | _ => none

/-- One character of a class, or a class that an escape names. -/
def classItem : PatternReader Escaped := do
  if (← peek) = some '\\' then
    pass
    escape
  else
    let c ← need (← peek)
    pass
    return .character c

/-- The set of an item that is not the start of a range. -/
def itemClass : Escaped → Option CharClass
  | .character c => some (.single c)
  | .set c => some c
  | .anchor _ => none

/-- An item of a class or a range of characters. -/
def classRange : PatternReader CharClass := do
  let first ← classItem
  space
  let here ← left
  let f ← flags
  let isRange := match here with
    | [] => false
    | '-' :: rest =>
      match (if f.spaced then afterSpace false rest else rest).head? with
      | some c => c ≠ ']' && c ≠ '-'
      | none => true
    | _ => false
  if !isRange then need (itemClass first)
  else
    step
    match first, ← classItem with
    | .character lo, .character hi => if lo ≤ hi then return .range lo hi else refuse
    | _, _ => refuse

/-- What has been read of a class: the parts since the last operation, and the operation with its left side. -/
structure ClassSoFar where
  parts : CharClass := .nothing
  operation : Option ((CharClass → CharClass → CharClass) × CharClass) := none

/-- The class with other cases where the flags want them. -/
def casesIf (f : Flags) (c : CharClass) : CharClass := if f.anyCase then .anyCase c else c

/-- The class that the parts and the last operation give. -/
def ClassSoFar.set (f : Flags) (s : ClassSoFar) : CharClass :=
  match s.operation with
  | none => s.parts
  | some (op, left) => op (casesIf f left) (casesIf f s.parts)

mutual

/-- The class after an opening bracket. -/
def classBody : Nat → PatternReader CharClass
  | 0 => refuse
  | n + 1 => do
    space
    let negated := (← peek) = some '^'
    if negated then step
    let here ← left
    let hyphens := here.takeWhile (· = '-')
    for _ in hyphens do step
    let start : ClassSoFar := if hyphens.isEmpty then {} else { parts := .single '-' }
    let start ←
      if hyphens.isEmpty && (← peek) = some ']' then do
        step
        pure { start with parts := CharClass.single ']' }
      else pure start
    let c ← classRest n start
    let f ← flags
    return negatedIf negated (casesIf f c)

/-- The rest of a class, up to its closing bracket. -/
def classRest : Nat → ClassSoFar → PatternReader CharClass
  | 0, _ => refuse
  | n + 1, s => do
    space
    let here ← left
    match here with
    | [] => refuse
    | ']' :: _ =>
      pass
      return s.set (← flags)
    | '[' :: rest =>
      match bracketName? here with
      | some (c, rest) =>
        goTo rest
        classRest n { s with parts := .union s.parts c }
      | none =>
        goTo rest
        let c ← classBody n
        classRest n { s with parts := .union s.parts c }
    | _ =>
      match classOperation? here with
      | some (op, rest) =>
        goTo rest
        let f ← flags
        classRest n { parts := .nothing, operation := some (op, s.set f) }
      | none =>
        let c ← classRange
        classRest n { s with parts := .union s.parts c }

end

/-! ### Groups and flags -/

/-- True for the characters in the names of groups. -/
def isGroupName (first : Bool) (c : Char) : Bool :=
  c = '_' || Text.isLetter c ||
    (!first && (c = '.' || c = '[' || c = ']' || Text.hasAnyCategory ["Nd", "Nl", "No"] c))

/-- Adds a named group. -/
def namedGroup : PatternReader Nat := do
  let s ← get
  match Text.splitAt? '>' s.rest with
  | none => refuse
  | some (name, rest) =>
    match name with
    | [] => refuse
    | c :: cs =>
      if !isGroupName true c || !cs.all (isGroupName false) then refuse
      if (s.names.lookup name).isSome then refuse
      goTo rest
      let index ← newGroup
      modify fun s => { s with names := (name, index) :: s.names }
      return index

/-- A flag switched on or off. -/
def Flags.set (f : Flags) (on : Bool) : Char → Option Flags
  | 'i' => some { f with anyCase := on }
  | 'm' => some { f with lines := on }
  | 's' => some { f with dotAll := on }
  | 'U' => some { f with lazy := on }
  | 'u' => some { f with unicode := on }
  | 'R' => some { f with returns := on }
  | 'x' => some { f with spaced := on }
  | _ => none

/-- The flags before a colon or a closing parenthesis, which is passed and returned; none may be repeated.  The number of
letters tells whether there are any. -/
def readFlags : (on : Bool) → (seen : List Char) → Flags → List Char →
    Option (Flags × Char × List Char × List Char)
  | _, _, _, [] => none
  | on, seen, f, c :: rest =>
    if c = ':' ∨ c = ')' then
      if seen.head? = some '-' then none else some (f, c, seen, rest)
    else if c ∈ seen then none
    else if c = '-' then readFlags false ('-' :: seen) f rest
    else do readFlags on (c :: seen) (← f.set on c) rest

/-- What an opening parenthesis starts. -/
inductive Opening where
  | group (index : Option Nat) (inside : Flags)
  | flags (f : Flags)

/-- Reads what follows an opening parenthesis. -/
def opening : PatternReader Opening := do
  space
  let f ← flags
  for ahead in ["?=", "?!", "?<=", "?<!"] do
    if Text.startsWith ahead.toList (← left) then refuse
  if ← accept "?P<" then return .group (some (← namedGroup)) f
  if ← accept "?<" then return .group (some (← namedGroup)) f
  if ← accept "?" then
    let (f, close, seen, rest) ← need (readFlags true [] f (← left))
    goTo rest
    if close = ':' then return .group none f
    if seen.isEmpty then refuse
    return .flags f
  return .group (some (← newGroup)) f

/-! ### Parts -/

/-- A character, in both cases if the flags want it. -/
def literal (f : Flags) (c : Char) : Regex := .set (casesIf f (.single c))

/-- Any character but the ends of lines, unless the flags want them. -/
def dot (f : Flags) : Option Regex :=
  if !f.unicode then none
  else if f.dotAll then some (.set .any)
  else if f.returns then some (.set (.complement (.ranges [('\n', '\n'), ('\r', '\r')])))
  else some (.set (.complement (.single '\n')))

/-- The start of the text or of a line. -/
def startAnchor (f : Flags) : Anchor :=
  if !f.lines then .textStart else if f.returns then .returnStart else .lineStart

/-- The end of the text or of a line. -/
def endAnchor (f : Flags) : Anchor :=
  if !f.lines then .textEnd else if f.returns then .returnEnd else .lineEnd

/-- A part without a group: a class, an escape, a condition or a character. -/
def plainPart (c : Char) : PatternReader Regex := do
  let f ← flags
  match c with
  | '[' =>
    pass
    let c ← classBody (3 * (← left).length + 3)
    return .set c
  | '\\' =>
    pass
    match ← escape with
    | .character c => return literal f c
    | .set c => return .set c
    | .anchor a => return .anchor a
  | '.' =>
    pass
    return ← need (dot f)
  | '^' =>
    pass
    return .anchor (startAnchor f)
  | '$' =>
    pass
    return .anchor (endAnchor f)
  | c =>
    pass
    return literal f c

/-- A part repeated `n` times. -/
def times (r : Regex) : Nat → Regex
  | 0 => .empty
  | 1 => r
  | n + 1 => .seq r (times r n)

/-- A part repeated up to `n` times. -/
def upToTimes (greedy : Bool) (r : Regex) : Nat → Regex
  | 0 => .empty
  | n + 1 =>
    let more := .seq r (upToTimes greedy r n)
    if greedy then .alt more .empty else .alt .empty more

/-- A part repeated at least `least` and, if given, at most `most` times. -/
def repeated (greedy : Bool) (r : Regex) (least : Nat) : Option Nat → Regex
  | none => if least = 0 then .star greedy r else .seq (times r least) (.star greedy r)
  | some most =>
    if least = most then times r least
    else if least = 0 then upToTimes greedy r most
    else .seq (times r least) (upToTimes greedy r (most - least))

/-- The room that a set of characters takes in a pattern: sets that reach beyond the first 128 characters take more. -/
def setRoom : CharClass → Nat
  | .range lo hi => if hi.toNat < 128 then 1 else if lo = hi then 4 else 10
  | .word | .categories _ => 1500
  | .digit => 200
  | .blank => 20
  | .any => 10
  | .nothing => 1
  | .union a b | .common a b | .without a b | .either a b => setRoom a + setRoom b
  | .complement a => setRoom a + 10
  | .anyCase a => 2 * setRoom a

/-- The room that a pattern takes with all repetitions written out. -/
def room : Regex → Nat
  | .empty | .anchor _ => 1
  | .set c => setRoom c
  | .group _ r => room r + 2
  | .seq a b => room a + room b
  | .alt a b => room a + room b + 1
  | .star _ r => room r + 1

/-- The room that there is for a pattern. -/
def maxRoom : Nat := 327680

/-- A part repeated so many times; one that would make the pattern too large is noted and left as it is. -/
def repeatPart (greedy : Bool) (r : Regex) (least : Nat) (most : Option Nat) : PatternReader Regex := do
  if room r * max least (most.getD 0) ≤ maxRoom then return repeated greedy r least most
  modify fun s => { s with large := true }
  return r

/-- The counts in braces, up to the closing one. -/
def counts : PatternReader (Nat × Option Nat) := do
  step
  let least ← count
  if (← peek) = some ',' then
    step
    let least ← need least
    if (← peek) = some '\x7d' then
      pass
      return (least, none)
    let most ← need (← count)
    expect '\x7d'
    if least ≤ most then return (least, some most) else refuse
  else
    let least ← need least
    expect '\x7d'
    return (least, some least)

/-- The sign after a repetition that turns its preference around. -/
def greed : PatternReader Bool := do
  let turned ← accept "?"
  return turned == (← flags).lazy

/-- A repetition sign with its counts, if one comes next. -/
def repetition? (c : Char) : PatternReader (Option (Nat × Option Nat × Bool)) := do
  match c with
  | '*' =>
    pass
    return some (0, none, ← greed)
  | '+' =>
    pass
    return some (1, none, ← greed)
  | '?' =>
    pass
    return some (0, some 1, ← greed)
  | '\x7b' =>
    let (least, most) ← counts
    space
    return some (least, most, ← greed)
  | _ => return none

/-- A sequence of parts, the latest first. -/
def sequence : List Regex → Regex
  | [] => .empty
  | r :: rs => rs.foldl (fun after before => .seq before after) r

mutual

/-- Alternatives, up to the end or a closing parenthesis. -/
def alternatives : Nat → PatternReader Regex
  | 0 => refuse
  | n + 1 => do
    let first ← parts n [] false
    if (← peek) = some '|' then
      pass
      return .alt first (← alternatives n)
    else return first

/-- Parts in a row; `before` holds those read, the latest first, and `repeatable` tells whether the last may be
repeated. -/
def parts : Nat → List Regex → (repeatable : Bool) → PatternReader Regex
  | 0, _, _ => refuse
  | n + 1, before, repeatable => do
    space
    match ← peek with
    | none => return sequence before
    | some c =>
      if c = '|' ∨ c = ')' then return sequence before
      else if c = '*' ∨ c = '+' ∨ c = '?' ∨ c = '\x7b' then
        match before, repeatable with
        | r :: before, true =>
          match ← repetition? c with
          | some (least, most, greedy) => parts n ((← repeatPart greedy r least most) :: before) true
          | none => refuse
        | _, _ => refuse
      else if c = '(' then
        pass
        match ← opening with
        | .flags f =>
          setFlags f
          parts n before false
        | .group index inside =>
          let outside ← flags
          setFlags inside
          let r ← alternatives n
          expect ')'
          setFlags outside
          parts n ((match index with
            | some i => .group i r
            | none => r) :: before) true
      else
        let r ← plainPart c
        parts n (r :: before) true

end

/-- Why a text is no pattern. -/
inductive Refusal where
  | malformed
  | tooLarge
deriving DecidableEq, Repr

/-- The pattern of a text, with the names of its groups. -/
def read (cs : List Char) : Except Refusal (Regex × List (List Char × Nat)) :=
  match alternatives (2 * cs.length + 3) ⟨cs, {}, 0, [], false⟩ with
  | some (r, s) =>
    if !s.rest.isEmpty then .error .malformed
    else if s.large || maxRoom < room r then .error .tooLarge
    else .ok (r, s.names)
  | none => .error .malformed

end Rowwise.Regex

import Rowwise.Regex.CharClass

/-!
# Rowwise.Regex.Search — patterns and their matches

A match of a pattern is found by following all ways to go on at once, in order of preference: at every place the ways
that have come to the same tasks are one way, the preferred one.  The match found begins as far to the left as possible,
and of the matches that begin there it is the preferred one.
-/

namespace Rowwise

namespace Regex

/-- Conditions on a place that take no character. -/
inductive Anchor where
  | textStart
  | textEnd
  | lineStart
  | lineEnd
  /-- The same where a return and a line feed may each end a line. -/
  | returnStart
  | returnEnd
  /-- The end or the start of a word. -/
  | wordEdge (ascii : Bool)
  | insideOrOutside (ascii : Bool)
  | wordStart (ascii : Bool)
  | wordEnd (ascii : Bool)
  /-- No character of a word stands before. -/
  | noWordBefore (ascii : Bool)
  | noWordAfter (ascii : Bool)
deriving DecidableEq, Repr

end Regex

/-- A pattern. -/
inductive Regex where
  | empty
  | set (c : Regex.CharClass)
  | anchor (a : Regex.Anchor)
  | group (index : Nat) (r : Regex)
  | seq (a b : Regex)
  | alt (a b : Regex)
  /-- Any number of times, as often as possible or as seldom as possible. -/
  | star (greedy : Bool) (r : Regex)
deriving DecidableEq, Repr

namespace Regex

/-- A place in a text: the number of characters before it, the last of them, and those that follow. -/
structure Place where
  offset : Nat
  last : Option Char
  rest : List Char

namespace Place

/-- The start of a text. -/
def start (cs : List Char) : Place := ⟨0, none, cs⟩

/-- The place `n` characters further on. -/
def advance : Nat → Place → Place
  | n + 1, ⟨offset, _, c :: rest⟩ => advance n ⟨offset + 1, some c, rest⟩
  | _, p => p

end Place

/-- True if there is a character and it is one of words. -/
def isWord (ascii : Bool) : Option Char → Bool
  | none => false
  | some c => if ascii then CharClass.asciiWord.contains c else Text.isWordChar c

/-- True if the place meets the condition. -/
def Anchor.holds (p : Place) : Anchor → Bool
  | textStart => p.offset = 0
  | textEnd => p.rest.isEmpty
  | lineStart => p.offset = 0 || p.last = some '\n'
  | lineEnd => p.rest.isEmpty || p.rest.head? = some '\n'
  | returnStart => p.offset = 0 || p.last = some '\n' || (p.last = some '\r' && p.rest.head? ≠ some '\n')
  | returnEnd =>
    p.rest.isEmpty || p.rest.head? = some '\r' || (p.rest.head? = some '\n' && p.last ≠ some '\r')
  | wordEdge ascii => isWord ascii p.last != isWord ascii p.rest.head?
  | insideOrOutside ascii => isWord ascii p.last == isWord ascii p.rest.head?
  | wordStart ascii => !isWord ascii p.last && isWord ascii p.rest.head?
  | wordEnd ascii => isWord ascii p.last && !isWord ascii p.rest.head?
  | noWordBefore ascii => !isWord ascii p.last
  | noWordAfter ascii => !isWord ascii p.rest.head?

/-- What is left to do on one way. -/
inductive Task where
  | run (r : Regex)
  /-- A group ends here. -/
  | close (index : Nat)
  /-- The next round of a repetition; `idle` if this round has taken no character yet. -/
  | again (greedy : Bool) (r : Regex) (idle : Bool)
deriving DecidableEq, Repr

/-- Starts and ends of groups, the latest first. -/
structure Mark where
  group : Nat
  isEnd : Bool
  offset : Nat
deriving DecidableEq, Repr

/-- A way on: the tasks left and the marks so far. -/
structure Way where
  tasks : List Task
  marks : List Mark

/-- Where a way comes to at a place: it needs a character of a set, or it is a match. -/
inductive Branch where
  | take (c : CharClass) (way : Way)
  | found (marks : List Mark)

/-- A bound for the work in a pattern at one place. -/
def weight : Regex → Nat
  | empty | set _ | anchor _ => 1
  | group _ r => r.weight + 3
  | seq a b => a.weight + b.weight + 1
  | alt a b => a.weight + b.weight + 1
  | star _ r => r.weight + 3

/-- A bound for the work in a task at one place. -/
def Task.weight : Task → Nat
  | run r => r.weight
  | close _ => 1
  | again _ _ true => 1
  | again _ r false => r.weight + 4

/-- A bound for the work in tasks at one place. -/
def tasksWeight : List Task → Nat
  | [] => 0
  | t :: ts => t.weight + tasksWeight ts

/-- The branches of a way at a place, the preferred first.  A round of a repetition that takes no character is the
last. -/
def branches (p : Place) : List Task → List Mark → List Branch
  | [], marks => [.found marks]
  | .run .empty :: ts, marks => branches p ts marks
  | .run (.set c) :: ts, marks => [.take c ⟨ts, marks⟩]
  | .run (.anchor a) :: ts, marks => if a.holds p then branches p ts marks else []
  | .run (.group i r) :: ts, marks => branches p (.run r :: .close i :: ts) (⟨i, false, p.offset⟩ :: marks)
  | .run (.seq a b) :: ts, marks => branches p (.run a :: .run b :: ts) marks
  | .run (.alt a b) :: ts, marks => branches p (.run a :: ts) marks ++ branches p (.run b :: ts) marks
  | .run (.star greedy r) :: ts, marks =>
    if greedy then branches p (.run r :: .again greedy r true :: ts) marks ++ branches p ts marks
    else branches p ts marks ++ branches p (.run r :: .again greedy r true :: ts) marks
  | .close i :: ts, marks => branches p ts (⟨i, true, p.offset⟩ :: marks)
  | .again _ _ true :: ts, marks => branches p ts marks
  | .again greedy r false :: ts, marks => branches p (.run (.star greedy r) :: ts) marks
termination_by ts => tasksWeight ts
decreasing_by all_goals simp only [tasksWeight, Task.weight, weight]; omega

/-- The task after a character has been taken. -/
def Task.moved : Task → Task
  | again greedy r _ => again greedy r false
  | t => t

/-- The branches before the first match, and the marks of that match. -/
def cut : List Branch → List (CharClass × Way) × Option (List Mark)
  | [] => ([], none)
  | .found marks :: _ => ([], some marks)
  | .take c way :: bs => ((c, way) :: (cut bs).1, (cut bs).2)

/-- Keeps the first of the ways with the same tasks. -/
def distinct (seen : List (List Task)) : List Way → List Way
  | [] => []
  | w :: ws => if w.tasks ∈ seen then distinct seen ws else w :: distinct (w.tasks :: seen) ws

/-- The ways after a character. -/
def stepped (c : Char) (takes : List (CharClass × Way)) : List Way :=
  distinct [] ((takes.filter fun t => t.1.contains c).map fun t => { t.2 with tasks := t.2.tasks.map Task.moved })

/-- A match: the place behind it and its marks. -/
structure Found where
  finish : Nat
  marks : List Mark

/-- Follows ways through a text; `best` is the match found so far. -/
def follow (offset : Nat) (last : Option Char) (ways : List Way) (best : Option Found) : List Char → Option Found
  | [] => (cutAt ⟨offset, last, []⟩ ways best).2
  | c :: rest =>
    let (takes, best) := cutAt ⟨offset, last, c :: rest⟩ ways best
    match stepped c takes with
    | [] => best
    | ways => follow (offset + 1) (some c) ways best rest
where
  /-- The ways that need a character, and the best match. -/
  cutAt (p : Place) (ways : List Way) (best : Option Found) : List (CharClass × Way) × Option Found :=
    let (takes, marks) := cut (ways.flatMap fun w => branches p w.tasks w.marks)
    (takes, (marks.map fun m => ⟨p.offset, m⟩).or best)

/-- The match that begins at a place. -/
def matchAt (r : Regex) (p : Place) : Option Found := follow p.offset p.last [⟨[.run r], []⟩] none p.rest

/-- The first match at a place or behind it, with its start. -/
def findFrom (r : Regex) (offset : Nat) (last : Option Char) (cs : List Char) : Option (Nat × Found) :=
  match r.matchAt ⟨offset, last, cs⟩ with
  | some found => some (offset, found)
  | none =>
    match cs with
    | [] => none
    | c :: rest => r.findFrom (offset + 1) (some c) rest

/-- True if some part of the text matches. -/
def occursIn (r : Regex) (cs : List Char) : Bool := (r.findFrom 0 none cs).isSome

/-! ### All matches -/

/-- A match with the part of the text that each group took; group zero is the match itself. -/
structure Occurrence where
  start : Nat
  finish : Nat
  marks : List Mark

/-- The start and end of a group in a match, if the group took part. -/
def Occurrence.span? (o : Occurrence) (group : Nat) : Option (Nat × Nat) :=
  if group = 0 then some (o.start, o.finish)
  else do
    let finish ← o.marks.find? fun m => m.group = group && m.isEnd
    let start ← o.marks.find? fun m => m.group = group && !m.isEnd
    return (start.offset, finish.offset)

/-- The matches from a place on, none overlapping the one before.  After an empty match right behind the last match the
search goes on one character later. -/
def occurrencesFrom (r : Regex) : Nat → Option Nat → Place → List Occurrence
  | 0, _, _ => []
  | fuel + 1, lastEnd, p =>
    match r.findFrom p.offset p.last p.rest with
    | none => []
    | some (start, found) =>
      if start = found.finish ∧ lastEnd = some found.finish then
        if p.rest.isEmpty then [] else occurrencesFrom r fuel lastEnd (p.advance 1)
      else
        ⟨start, found.finish, found.marks⟩ ::
          occurrencesFrom r fuel (some found.finish) (p.advance (found.finish - p.offset))

/-- All matches in a text, from left to right. -/
def occurrences (r : Regex) (cs : List Char) : List Occurrence :=
  r.occurrencesFrom (2 * cs.length + 2) none (.start cs)

end Regex

end Rowwise

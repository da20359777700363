import Untrusted.Regex

/-!
# Matching regular expressions

Matching goes depth first: alternatives are tried in order and repetitions longest first unless they
are lazy, so a match is the first one in that order and not the longest. A round of a repetition
that matches nothing is given up once the required rounds are done, which bounds the rounds by the
text that is left. A lookbehind is matched from its end to its start, leftwards through the text.
-/

namespace Untrusted.Regex

/-- Where matching stands: a position, and what each group matched. -/
structure Progress where
  position : Nat
  groups : List (Nat × Nat × Nat)
  deriving DecidableEq, Repr

abbrev Continuation := Progress → Option Progress

namespace Progress

def group? (s : Progress) (index : Nat) : Option (Nat × Nat) :=
  (s.groups.find? (·.1 == index)).map Prod.snd

def setGroup (s : Progress) (index start stop : Nat) : Progress :=
  { s with groups := (index, start, stop) :: s.groups }

def clear (s : Progress) (indices : List Nat) : Progress :=
  { s with groups := s.groups.filter fun g => !indices.contains g.1 }

end Progress

/-! ## Reading characters -/

def charAt? (unicode : Bool) (text : Array Nat) (i : Nat) : Option (Nat × Nat) :=
  match text[i]? with
  | none => none
  | some u =>
    match text[i + 1]? with
    | some v =>
      if unicode && Utf8.isHighSurrogate u && Utf8.isLowSurrogate v then
        some (Utf8.pairCodePoint u v, i + 2)
      else some (u, i + 1)
    | none => some (u, i + 1)

def charBefore? (unicode : Bool) (text : Array Nat) : Nat → Option (Nat × Nat)
  | 0 => none
  | 1 => (text[0]?).map fun u => (u, 0)
  | i + 2 =>
    match text[i]?, text[i + 1]? with
    | some u, some v =>
      if unicode && Utf8.isHighSurrogate u && Utf8.isLowSurrogate v then
        some (Utf8.pairCodePoint u v, i)
      else some (v, i + 1)
    | _, _ => none

inductive Direction where
  | rightward
  | leftward
  deriving DecidableEq, Repr

/-- The character next to a position, and the position after it on the way. -/
def charToward? (unicode : Bool) (text : Array Nat) : Direction → Nat → Option (Nat × Nat)
  | .rightward => charAt? unicode text
  | .leftward => charBefore? unicode text

def step (unicode : Bool) (text : Array Nat) (d : Direction) (accepts : Nat → Bool) (s : Progress)
    (k : Continuation) : Option Progress :=
  match charToward? unicode text d s.position with
  | some (c, next) => if accepts c then k { s with position := next } else none
  | none => none

def wordAt (f : Flags) (text : Array Nat) (i : Nat) : Bool := (text[i]?).any f.isWordChar

/-- Whether a position is between a word character and what is none. -/
def atWordBoundary (f : Flags) (text : Array Nat) (i : Nat) : Bool :=
  (0 < i && wordAt f text (i - 1)) != wordAt f text i

def atLineStart (f : Flags) (text : Array Nat) (i : Nat) : Bool :=
  i == 0 || (f.multiline && (text[i - 1]?).any isLineEnd)

def atLineEnd (f : Flags) (text : Array Nat) (i : Nat) : Bool :=
  i == text.size || (f.multiline && (text[i]?).any isLineEnd)

/-- Where the characters between `i` and `last` end that are written again at `j`. -/
def echo? (f : Flags) (text : Array Nat) (d : Direction) (last : Nat) :
    Nat → Nat → Nat → Option Nat
  | 0, _, _ => none
  | fuel + 1, i, j =>
    if i = last then some j
    else
      match charToward? f.unicode text d i, charToward? f.unicode text d j with
      | some (a, i'), some (b, j') =>
        if f.sameChar a b then echo? f text d last fuel i' j' else none
      | _, _ => none

/-- Goes past the characters from `start` up to `stop` written again. -/
def again (f : Flags) (text : Array Nat) (d : Direction) (s : Progress) (start stop : Nat)
    (k : Continuation) : Option Progress :=
  let found :=
    match d with
    | .rightward => echo? f text d stop (stop - start + 1) start s.position
    | .leftward => echo? f text d start (stop - start + 1) stop s.position
  found.bind fun j => k { s with position := j }

/-! ## Matching -/

/-- At least `least` and at most `most` rounds of `round`. -/
def rounds (round : Progress → Continuation → Option Progress) (greedy : Bool) (k : Continuation) :
    Nat → Nat → Option Nat → Progress → Option Progress
  | 0, least, _, s => if least = 0 then k s else none
  | fuel + 1, least, most, s =>
    if most = some 0 then k s
    else
      let more := fun (_ : Unit) => round s fun s' =>
        if least = 0 ∧ s'.position = s.position then none
        else rounds round greedy k fuel (least - 1) (most.map (· - 1)) s'
      if 0 < least then more ()
      else if greedy then more () <|> k s
      else k s <|> more ()

def Node.run (f : Flags) (text : Array Nat) (d : Direction) :
    Node → Progress → Continuation → Option Progress
  | .empty, s, k => k s
  | .char c, s, k => step f.unicode text d (f.sameChar c) s k
  | .any, s, k => step f.unicode text d (fun c => f.dotAll || !isLineEnd c) s k
  | .oneOf negated items, s, k =>
    step f.unicode text d (fun c => f.classHolds items c != negated) s k
  | .seq a b, s, k =>
    match d with
    | .rightward => a.run f text d s fun s' => b.run f text d s' k
    | .leftward => b.run f text d s fun s' => a.run f text d s' k
  | .alt a b, s, k => a.run f text d s k <|> b.run f text d s k
  | .group index body, s, k =>
    body.run f text d s fun s' =>
      k (s'.setGroup index (min s.position s'.position) (max s.position s'.position))
  | .backreference index, s, k =>
    match s.group? index with
    | some (start, stop) => again f text d s start stop k
    | none => k s
  | .repetition body least most greedy, s, k =>
    rounds (fun s' k' => body.run f text d (s'.clear body.groups) k') greedy k
      (least + text.size + 1) least most s
  | .lineStart, s, k => if atLineStart f text s.position then k s else none
  | .lineEnd, s, k => if atLineEnd f text s.position then k s else none
  | .wordBoundary negated, s, k =>
    if atWordBoundary f text s.position != negated then k s else none
  | .lookahead negated body, s, k => around negated s k (body.run f text .rightward s some)
  | .lookbehind negated body, s, k => around negated s k (body.run f text .leftward s some)
where
  /-- Goes on from where a look around started, with the groups that it matched. -/
  around (negated : Bool) (s : Progress) (k : Continuation) : Option Progress → Option Progress
    | some found => if negated then none else k { s with groups := found.groups }
    | none => if negated then k s else none

/-- Where the match that starts at a position ends. -/
def matchAt? (r : Regex) (text : Array Nat) (i : Nat) : Option Nat :=
  (r.node.run r.flags text .rightward ⟨i, []⟩ some).map (·.position)

def nextPosition (r : Regex) (text : Array Nat) (i : Nat) : Nat :=
  match charAt? r.flags.unicode text i with
  | some (_, next) => next
  | none => i + 1

def searchFrom (r : Regex) (text : Array Nat) : Nat → Nat → Option (Nat × Nat)
  | 0, _ => none
  | fuel + 1, i =>
    if text.size < i then none
    else
      match r.matchAt? text i with
      | some stop => some (i, stop)
      | none => searchFrom r text fuel (r.nextPosition text i)

def search? (r : Regex) (text : Array Nat) (i : Nat) : Option (Nat × Nat) :=
  r.searchFrom text (text.size + 1 - i) i

end Untrusted.Regex

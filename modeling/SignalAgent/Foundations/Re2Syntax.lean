/- MID: SignalAgent/Foundations/Re2Syntax
   layer: library
   source: none
   digest: The RE2 expressions of Go's regexp package: the tokens of a text, the parser over them
     and what an expression matches; texts with a parenthesis that closes none of their groups. -/

import SignalAgent.Foundations.GoQuote
import SignalAgent.Foundations.Readers

set_option autoImplicit false
set_option relaxedAutoImplicit false

namespace SignalAgent.Foundations.Re2Syntax

open GoQuote GoText Readers Reader

/-- The Unicode tables: the classes by name, each without and with its case variants, and the
runes that differ from a rune by case only, the rune itself among them. -/
structure Tables where
  unicodeClass : GoString → Option (Bool → Nat → Bool)
  orbit : Nat → List Nat

inductive FlagLetter where
  | i | m | s | U

structure Flags where
  foldCase : Bool
  oneLine : Bool
  dotNL : Bool
  deriving DecidableEq

namespace Flags

/-- `syntax.Perl`. -/
def perl : Flags := ⟨false, true, false⟩

-- U exchanges greedy and lazy repetition, which decides no match.
def turn (flags : Flags) (letter : FlagLetter) (on : Bool) : Flags :=
  match letter with
  | .i => { flags with foldCase := on }
  | .m => { flags with oneLine := !on }
  | .s => { flags with dotNL := on }
  | .U => flags

def change (flags : Flags) (letters : List (FlagLetter × Bool)) : Flags :=
  letters.foldl (fun flags letter => flags.turn letter.1 letter.2) flags

end Flags

inductive Assertion where
  | beginText | endText | beginLine | endLine | wordBoundary | noWordBoundary
  deriving DecidableEq

inductive Re where
  | empty
  | set (accepts : Nat → Bool)
  | assert (assertion : Assertion)
  | concat (first second : Re)
  | alternate (first second : Re)
  | repetition (min : Nat) (max : Option Nat) (sub : Re)

/-- A set of runes, without and with case folding. -/
abbrev RuneClass := Bool → Nat → Bool

/-- What stands between two closing parentheses. -/
inductive Item where
  | literal (r : Nat)
  | quoted (runes : List Nat)
  | set (runes : RuneClass)
  | dot
  | caret
  | dollar
  | assertion (assertion : Assertion)
  | repetition (min : Nat) (max : Option Nat)
  | group (flags : List (FlagLetter × Bool))
  | setFlags (flags : List (FlagLetter × Bool))
  | bar

inductive Token where
  | item (item : Item)
  | close

def ascii (c : Char) : UInt8 := UInt8.ofNat c.toNat

section Sets

def folded (T : Tables) (accepts : Nat → Bool) : RuneClass := fun fold r =>
  if fold then (T.orbit r).any accepts else accepts r

def inRanges (ranges : List (Nat × Nat)) (r : Nat) : Bool :=
  ranges.any fun range => range.1 ≤ r && r ≤ range.2

def negatedIf (sign : Bool) (runes : RuneClass) : RuneClass := fun fold r =>
  xor sign (runes fold r)

def digits : List (Nat × Nat) := [(0x30, 0x39)]

def letters : List (Nat × Nat) := [(0x41, 0x5A), (0x61, 0x7A)]

/-- The letters and digits of ASCII and the underscore. -/
def wordRunes : List (Nat × Nat) := digits ++ letters ++ [(0x5F, 0x5F)]

def isAlnum (r : Nat) : Bool := inRanges (digits ++ letters) r

def isWord (c : UInt8) : Bool := inRanges wordRunes c.toNat

def isDigit (c : UInt8) : Bool := inRanges digits c.toNat

def isOctal (c : UInt8) : Bool := 0x30 ≤ c && c ≤ 0x37

def isHex (c : UInt8) : Bool := (fromHexChar c).isSome

/-- The classes \d, \s and \w; a capital letter negates. -/
def perlClass (T : Tables) (c : UInt8) : Option RuneClass :=
  if c = ascii 'd' then some (folded T (inRanges digits))
  else if c = ascii 's' then
    some (folded T (inRanges [(0x09, 0x0A), (0x0C, 0x0D), (0x20, 0x20)]))
  else if c = ascii 'w' then some (folded T (inRanges wordRunes))
  else if c = ascii 'D' then some (negatedIf true (folded T (inRanges digits)))
  else if c = ascii 'S' then
    some (negatedIf true (folded T (inRanges [(0x09, 0x0A), (0x0C, 0x0D), (0x20, 0x20)])))
  else if c = ascii 'W' then some (negatedIf true (folded T (inRanges wordRunes)))
  else none

/-- The classes of `[:name:]`. -/
def posixRanges (name : GoString) : Option (List (Nat × Nat)) :=
  if name = lit "alnum" then some (digits ++ letters)
  else if name = lit "alpha" then some letters
  else if name = lit "ascii" then some [(0x00, 0x7F)]
  else if name = lit "blank" then some [(0x09, 0x09), (0x20, 0x20)]
  else if name = lit "cntrl" then some [(0x00, 0x1F), (0x7F, 0x7F)]
  else if name = lit "digit" then some digits
  else if name = lit "graph" then some [(0x21, 0x7E)]
  else if name = lit "lower" then some [(0x61, 0x7A)]
  else if name = lit "print" then some [(0x20, 0x7E)]
  else if name = lit "punct" then some [(0x21, 0x2F), (0x3A, 0x40), (0x5B, 0x60), (0x7B, 0x7E)]
  else if name = lit "space" then some [(0x09, 0x0D), (0x20, 0x20)]
  else if name = lit "upper" then some [(0x41, 0x5A)]
  else if name = lit "word" then some wordRunes
  else if name = lit "xdigit" then some (digits ++ [(0x41, 0x46), (0x61, 0x66)])
  else none

/-- A name with its leading `^`, if it has one, taken off. -/
def signedName (name : GoString) : Bool × GoString :=
  match name with
  | [] => (false, [])
  | c :: rest => if c = ascii '^' then (true, rest) else (false, c :: rest)

def posixClass (T : Tables) (name : GoString) : Option RuneClass :=
  (posixRanges (signedName name).2).map fun ranges =>
    negatedIf (signedName name).1 (folded T (inRanges ranges))

end Sets

section Escapes

def octal (value : Nat) (digit : Option UInt8) : Nat :=
  match digit with
  | some d => value * 8 + (d.toNat - 0x30)
  | none => value

def hexValue (r : Nat) : Option Nat := if r < 0x80 then fromHexChar (UInt8.ofNat r) else none

def controlEscape : Nat → Option Nat
  | 0x61 => some 0x07
  | 0x66 => some 0x0C
  | 0x6E => some 0x0A
  | 0x72 => some 0x0D
  | 0x74 => some 0x09
  | 0x76 => some 0x0B
  | _ => none

/-- The digits behind `\x`. -/
def hexEscape : Reader Nat := do
  let c ← rune
  if c = 0x7B then
    let number ← run isHex
    let _ ← byte fun c => c == ascii '\x7d'
    if number = [] ∨ 0x10FFFF < hexNumber number then fail else return hexNumber number
  else
    let d ← rune
    match hexValue c, hexValue d with
    | some x, some y => return x * 16 + y
    | _, _ => fail

/-- What an escape means that starts with the rune `c`. -/
def escapeFrom (c : Nat) : Reader Nat := do
  if 0x31 ≤ c ∧ c ≤ 0x37 then
    -- One digit alone would be a back reference.
    let second ← byte isOctal
    let third ← optional isOctal
    return octal (octal (c - 0x30) (some second)) third
  else if c = 0x30 then
    match ← optional isOctal with
    | none => return 0
    | some second =>
      let third ← optional isOctal
      return octal (octal 0 (some second)) third
  else if c = 0x78 then hexEscape
  else match controlEscape c with
    | some r => return r
    | none => if c < 0x80 ∧ isAlnum c = false then return c else fail

/-- `parseEscape`, behind the backslash. -/
def escape : Reader Nat := rune >>= escapeFrom

/-- The name of a Unicode class that starts with the rune `c`: one rune, or a text in braces. -/
def className (c : Nat) : Reader GoString := do
  if c = 0x7B then
    let name ← run fun c => c != ascii '\x7d'
    let _ ← byte fun c => c == ascii '\x7d'
    return name
  else return encodeRune c

/-- `parseUnicodeClass`, behind `\p` or `\P`. -/
def unicodeClass (T : Tables) (negated : Bool) : Reader RuneClass := do
  let c ← rune
  let name ← className c
  match T.unicodeClass (signedName name).2 with
  | some runes => return negatedIf (xor negated (signedName name).1) runes
  | none => fail

def classLetters : GoString := lit "pPdDsSwW"

def letterClass (T : Tables) (c : UInt8) : Reader RuneClass :=
  if c = ascii 'p' then unicodeClass T false
  else if c = ascii 'P' then unicodeClass T true
  else match perlClass T c with
    | some runes => return runes
    | none => fail

end Escapes

section Classes

/-- `parseNamedClass`. Without a closing `:]` the bracket is a plain rune. -/
def namedClass (T : Tables) : Reader (Option RuneClass) := fun s =>
  match s with
  | c :: d :: t =>
    if c = ascii '[' ∧ d = ascii ':' then
      match cutPair (ascii ':') (ascii ']') t with
      | none => some (none, s)
      | some (name, rest) => (posixClass T name).map fun runes => (some runes, rest)
    else some (none, s)
  | _ => some (none, s)

def classChar : Reader Nat := do
  match ← optional fun c => c == ascii '\\' with
  | some _ => escape
  | none => rune

/-- The upper end of a range; a hyphen in front of the bracket is a plain rune. -/
def rangeEnd : Reader (Option Nat) := fun s =>
  match s with
  | c :: d :: t =>
    if c = ascii '-' ∧ d ≠ ascii ']' then (some <$> classChar) (d :: t) else some (none, s)
  | _ => some (none, s)

def classRange (T : Tables) (lo : Nat) : Reader RuneClass := do
  match ← rangeEnd with
  | none => return folded T (inRanges [(lo, lo)])
  | some hi => if hi < lo then fail else return folded T (inRanges [(lo, hi)])

def classEscape (T : Tables) : Reader RuneClass := do
  match ← optional fun c => c ∈ classLetters with
  | some c => letterClass T c
  | none => escape >>= classRange T

def classItem (T : Tables) : Reader RuneClass := do
  match ← namedClass T with
  | some runes => return runes
  | none =>
    match ← optional fun c => c == ascii '\\' with
    | none => rune >>= classRange T
    | some _ => classEscape T

/-- `parseClass`, behind the bracket. -/
def charClass (T : Tables) : Reader Item := do
  let negation ← optional fun c => c == ascii '^'
  let runes ← items (ascii ']') (classItem T)
  return .set (negatedIf negation.isSome fun fold r => runes.any fun item => item fold r)

end Classes

section Repetitions

def decimal (digits : GoString) : Nat :=
  digits.foldl (fun value d => value * 10 + (d.toNat - 0x30)) 0

/-- `parseInt`. -/
def int : Reader Nat := do
  let number ← run isDigit
  if number = [] ∨ (1 < number.length ∧ number.head? = some 0x30) then fail
  else return decimal number

def upperCount (min : Nat) : Reader (Option Nat) := do
  match ← optional fun c => c == ascii ',' with
  | none =>
    let _ ← byte fun c => c == ascii '\x7d'
    return some min
  | some _ =>
    match ← optional fun c => c == ascii '\x7d' with
    | some _ => return none
    | none =>
      let max ← int
      let _ ← byte fun c => c == ascii '\x7d'
      return some max

/-- The counts behind an opening brace. -/
def counts : Reader (Nat × Option Nat) := do
  let min ← int
  let max ← upperCount min
  return (min, max)

/-- A repetition with the question mark that makes it lazy. -/
def repetition (min : Nat) (max : Option Nat) : Reader Item := do
  let _ ← optional fun c => c == ascii '?'
  if 1000 < min ∨ ∃ m ∈ max, 1000 < m ∨ m < min then fail else return .repetition min max

/-- Behind an opening brace; where no counts follow, the brace is a plain rune. -/
def brace : Reader Item := fun s =>
  match counts s with
  | some ((min, max), rest) => repetition min max rest
  | none => some (.literal 0x7B, s)

end Repetitions

section Groups

def flagLetter (c : UInt8) : Option FlagLetter :=
  if c = ascii 'i' then some .i
  else if c = ascii 'm' then some .m
  else if c = ascii 's' then some .s
  else if c = ascii 'U' then some .U
  else none

def lettersTo (on : Bool) (text : GoString) : List (FlagLetter × Bool) :=
  (text.filterMap flagLetter).map fun letter => (letter, on)

/-- The letters in front of a hyphen are turned on and those behind it off; a hyphen has letters
behind it. -/
def flagChange (text : GoString) : Option (List (FlagLetter × Bool)) :=
  let on := text.takeWhile fun c => c != ascii '-'
  match text.dropWhile fun c => c != ascii '-' with
  | [] => some (lettersTo true on)
  | _ :: off =>
    if off = [] ∨ ascii '-' ∈ off then none else some (lettersTo true on ++ lettersTo false off)

def groupName : Reader Item := do
  let name ← run isWord
  let _ ← byte fun c => c == ascii '>'
  if name = [] then fail else return .group []

def flagGroup : Reader Item := do
  let text ← run fun c => c ∈ lit "imsU-"
  let last ← byte fun c => c == ascii ':' || c == ascii ')'
  match flagChange text with
  | none => fail
  | some change => if last = ascii ':' then return .group change else return .setFlags change

/-- `parsePerlFlags` and the plain group, behind the parenthesis. -/
def group : Reader Item := do
  match ← optional fun c => c == ascii '?' with
  | none => return .group []
  | some _ =>
    match ← optional fun c => c ∈ lit "P<" with
    | none => flagGroup
    | some c =>
      if c = ascii 'P' then
        let _ ← byte fun c => c == ascii '<'
        groupName
      else groupName

end Groups

section Tokens

def validRunes : Nat → GoString → Option (List Nat)
  | _, [] => some []
  | 0, _ => none
  | fuel + 1, s =>
    match rune s with
    | some (r, rest) => (validRunes fuel rest).map fun runes => r :: runes
    | none => none

/-- The literal text behind `\Q`, up to `\E` or to the end. -/
def quotedText : Reader Item := fun s =>
  let parts := (cutPair (ascii '\\') (ascii 'E') s).getD (s, [])
  (validRunes parts.1.length parts.1).map fun runes => (.quoted runes, parts.2)

def escapedItem (T : Tables) : Reader Item := do
  match ← optional fun c => c ∈ lit "AbBzCQ" ++ classLetters with
  | none =>
    let r ← escape
    return .literal r
  | some c =>
    if c = ascii 'A' then return .assertion .beginText
    else if c = ascii 'b' then return .assertion .wordBoundary
    else if c = ascii 'B' then return .assertion .noWordBoundary
    else if c = ascii 'z' then return .assertion .endText
    else if c = ascii 'C' then fail
    else if c = ascii 'Q' then quotedText
    else
      let runes ← letterClass T c
      return .set runes

/-- The bytes with a meaning of their own, and what is read behind them. -/
def specials (T : Tables) : List (UInt8 × Reader Item) :=
  [(ascii '(', group), (ascii '|', pure .bar), (ascii '^', pure .caret), (ascii '$', pure .dollar),
    (ascii '.', pure .dot), (ascii '[', charClass T), (ascii '*', repetition 0 none),
    (ascii '+', repetition 1 none), (ascii '?', repetition 0 (some 1)), (ascii '\x7b', brace),
    (ascii '\\', escapedItem T)]

def special (T : Tables) (c : UInt8) : Option (Reader Item) :=
  ((specials T).find? fun entry => entry.1 == c).map Prod.snd

def next (T : Tables) : Reader Token := fun s =>
  match s with
  | [] => none
  | c :: t =>
    if c = ascii ')' then some (.close, t)
    else match special T c with
      | some reader => (Token.item <$> reader) t
      | none => ((Token.item ∘ Item.literal) <$> rune) (c :: t)

def lexFrom (T : Tables) : Nat → GoString → List Token × GoString
  | 0, s => ([], s)
  | fuel + 1, s =>
    match next T s with
    | none => ([], s)
    | some (token, rest) => (token :: (lexFrom T fuel rest).1, (lexFrom T fuel rest).2)

/-- The tokens of a text, and the text from where no token can be read. -/
def lex (T : Tables) (s : GoString) : List Token × GoString := lexFrom T s.length s

end Tokens

section Parser

/-- The finished branches of a group and the pieces of the last one, latest first. -/
structure Level where
  branches : List Re
  pieces : List Re

structure State where
  level : Level
  outer : List (Level × Flags)
  flags : Flags
  repeated : Bool

def concatAll : List Re → Re
  | [] => .empty
  | re :: rest => .concat re (concatAll rest)

def Level.push (level : Level) (re : Re) : Level := { level with pieces := re :: level.pieces }

def Level.branch (level : Level) : Re := concatAll level.pieces.reverse

def Level.finish (level : Level) : Re := level.branches.foldr .alternate level.branch

def State.initial : State := ⟨⟨[], []⟩, [], .perl, false⟩

def State.push (st : State) (re : Re) : State :=
  { st with level := st.level.push re, repeated := false }

/-- `repeatIsValid`: nested counts multiply to at most the bound. -/
def Re.repeatIsValid : Re → Nat → Bool
  | .empty, _ => true
  | .set _, _ => true
  | .assert _, _ => true
  | .concat first second, n => first.repeatIsValid n && second.repeatIsValid n
  | .alternate first second, n => first.repeatIsValid n && second.repeatIsValid n
  | .repetition min max sub, n =>
    let m := max.getD min
    if max = some 0 then true
    else if n < m then false
    else sub.repeatIsValid (if 0 < m then n / m else n)

/-- A repetition is not itself repeated, and it needs a piece to repeat. -/
def State.repeatLast (st : State) (min : Nat) (max : Option Nat) : Option State :=
  match st.repeated, st.level.pieces with
  | false, re :: rest =>
    let repeated := Re.repetition min max re
    if (2 ≤ min ∨ ∃ m ∈ max, 2 ≤ m) ∧ repeated.repeatIsValid 1000 = false then none
    else some { st with level := { st.level with pieces := repeated :: rest }, repeated := true }
  | _, _ => none

def State.item (T : Tables) (st : State) : Item → Option State
  | .literal r => some (st.push (.set (folded T (inRanges [(r, r)]) st.flags.foldCase)))
  | .quoted runes => some <| runes.foldl
      (fun st r => st.push (.set (folded T (inRanges [(r, r)]) st.flags.foldCase)))
      { st with repeated := false }
  | .set runes => some (st.push (.set (runes st.flags.foldCase)))
  | .dot => some (st.push (.set fun r => st.flags.dotNL || r != 0x0A))
  | .caret => some (st.push (.assert (if st.flags.oneLine then .beginText else .beginLine)))
  | .dollar => some (st.push (.assert (if st.flags.oneLine then .endText else .endLine)))
  | .assertion assertion => some (st.push (.assert assertion))
  | .repetition min max => st.repeatLast min max
  | .group change =>
    some ⟨⟨[], []⟩, (st.level, st.flags) :: st.outer, st.flags.change change, false⟩
  | .setFlags change => some { st with flags := st.flags.change change, repeated := false }
  | .bar =>
    some { st with level := ⟨st.level.branches ++ [st.level.branch], []⟩, repeated := false }

-- A group gives back the flags that were set in front of it.
def State.close (st : State) : Option State :=
  match st.outer with
  | [] => none
  | (level, flags) :: outer => some ⟨level.push st.level.finish, outer, flags, false⟩

def State.step (T : Tables) (st : State) : Token → Option State
  | .item item => st.item T item
  | .close => st.close

def State.run (T : Tables) (st : State) (tokens : List Token) : Option State :=
  tokens.foldlM (State.step T) st

/-- The expression of a whole text that has been read. -/
def State.result (st : State) : Option Re :=
  match st.outer with
  | [] => some st.level.finish
  | _ :: _ => none

/-- `syntax.Parse` with the flags of `regexp.Compile`. -/
def parse (T : Tables) (text : GoString) : Option Re :=
  match lex T text with
  | (tokens, []) => (State.initial.run T tokens).bind State.result
  | (_, _ :: _) => none

/-- How many groups an item opens. -/
def Item.opens : Item → Nat
  | .group _ => 1
  | _ => 0

/-- Behind `depth` open groups, some closing parenthesis finds no group open. -/
def closesBelow : Nat → List Token → Bool
  | _, [] => false
  | 0, .close :: _ => true
  | depth + 1, .close :: rest => closesBelow depth rest
  | depth, .item item :: rest => closesBelow (depth + item.opens) rest

/-- Some closing parenthesis of the text closes no group of the text. -/
def closesGroup (T : Tables) (text : GoString) : Bool := closesBelow 0 (lex T text).1

end Parser

section Matching

def wordAt (x : GoString) (i : Nat) : Bool := (x[i]?.map isWord).getD false

def wordBefore (x : GoString) (i : Nat) : Bool := 0 < i && wordAt x (i - 1)

/-- An assertion between the bytes of `x`. -/
def Assertion.Holds (x : GoString) (i : Nat) : Assertion → Prop
  | .beginText => i = 0
  | .endText => i = x.length
  | .beginLine => i = 0 ∨ x[i - 1]? = some 0x0A
  | .endLine => i = x.length ∨ x[i]? = some 0x0A
  | .wordBoundary => wordBefore x i ≠ wordAt x i
  | .noWordBoundary => wordBefore x i = wordAt x i

/-- The expression matches `x` from the first position to the second. A byte that starts no
rune is read as the error rune. -/
inductive Matches (x : GoString) : Re → Nat → Nat → Prop where
  | empty {i : Nat} : Matches x .empty i i
  | set {accepts : Nat → Bool} {i : Nat} (inside : i < x.length)
      (accepted : accepts (decodeRune (x.drop i)).1 = true) :
      Matches x (.set accepts) i (i + (decodeRune (x.drop i)).2)
  | assert {assertion : Assertion} {i : Nat} (holds : assertion.Holds x i) :
      Matches x (.assert assertion) i i
  | concat {first second : Re} {i j k : Nat} (left : Matches x first i j)
      (right : Matches x second j k) : Matches x (.concat first second) i k
  | alternateFirst {first second : Re} {i j : Nat} (left : Matches x first i j) :
      Matches x (.alternate first second) i j
  | alternateSecond {first second : Re} {i j : Nat} (right : Matches x second i j) :
      Matches x (.alternate first second) i j
  | stop {max : Option Nat} {sub : Re} {i : Nat} : Matches x (.repetition 0 max sub) i i
  | again {min : Nat} {max : Option Nat} {sub : Re} {i j k : Nat} (more : max ≠ some 0)
      (once : Matches x sub i j)
      (rest : Matches x (.repetition (min - 1) (max.map (· - 1)) sub) j k) :
      Matches x (.repetition min max sub) i k

/-- The positions between the runes of `x`. -/
inductive Boundary (x : GoString) : Nat → Prop where
  | zero : Boundary x 0
  | next {i : Nat} (before : Boundary x i) (inside : i < x.length) :
      Boundary x (i + (decodeRune (x.drop i)).2)

/-- `MatchString`: the expression matches somewhere in `x`. -/
def Finds (re : Re) (x : GoString) : Prop := ∃ i j, Boundary x i ∧ Matches x re i j

/-- All of `x` is in the language of the expression. -/
def Whole (re : Re) (x : GoString) : Prop := Matches x re 0 x.length

/-- An expression between the two anchors. -/
def anchoredRe (re : Re) : Re :=
  .concat (.assert .beginText) (.concat re (.concat (.assert .endText) .empty))

private theorem matches_assert {x : GoString} {assertion : Assertion} {i j : Nat}
    (found : Matches x (.assert assertion) i j) : i = j ∧ assertion.Holds x i := by
  cases found with
  | assert holds => exact ⟨rfl, holds⟩

private theorem matches_concat {x : GoString} {first second : Re} {i k : Nat}
    (found : Matches x (.concat first second) i k) :
    ∃ j, Matches x first i j ∧ Matches x second j k := by
  cases found with
  | concat left right => exact ⟨_, left, right⟩

theorem finds_anchoredRe_iff (re : Re) (x : GoString) : Finds (anchoredRe re) x ↔ Whole re x := by
  constructor
  · rintro ⟨i, k, -, found⟩
    obtain ⟨_, caret, rest⟩ := matches_concat found
    obtain ⟨j, inner, last⟩ := matches_concat rest
    obtain ⟨_, dollar, -⟩ := matches_concat last
    obtain ⟨rfl, rfl⟩ := matches_assert caret
    obtain ⟨-, rfl⟩ := matches_assert dollar
    exact inner
  · intro whole
    exact ⟨0, x.length, .zero, .concat (.assert rfl) (.concat whole (.concat (.assert rfl) .empty))⟩

end Matching

end SignalAgent.Foundations.Re2Syntax

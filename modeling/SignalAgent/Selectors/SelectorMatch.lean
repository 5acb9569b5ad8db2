/- MID: SignalAgent/Selectors/SelectorMatch
   layer: model
   source: components/selectormatch/selector.go
   digest: The selector scanner with its positions and errors, and matcher evaluation. -/

import SignalAgent.Foundations.GoMaps
import SignalAgent.Foundations.GoQuote

set_option autoImplicit false
set_option relaxedAutoImplicit false

namespace SignalAgent.Selectors.SelectorMatch

open Foundations.GoMaps Foundations.GoText Foundations.GoQuote

inductive Op where
  | eq
  | neq
  | re
  | nre
  deriving DecidableEq

/-- A parsed matcher. Its compiled expression is the anchored text of its value. -/
structure Matcher where
  name : GoString
  op : Op
  value : GoString
  deriving DecidableEq

def anchored (value : GoString) : GoString := lit "^(?:" ++ value ++ lit ")$"

def Matcher.matchValue (R : GoRuntime) (m : Matcher) (v : GoString) : Bool :=
  match m.op with
  | .eq => v = m.value
  | .neq => v ≠ m.value
  | .re => R.matchString (anchored m.value) v
  | .nre => !R.matchString (anchored m.value) v

abbrev Labels := GoMap GoString GoString

/-- The value of an absent label is the empty string. -/
def Matcher.matchesLabels (R : GoRuntime) (m : Matcher) (labels : Labels) : Bool :=
  m.matchValue R (index labels [] m.name)

structure Selector where
  matchers : List Matcher
  deriving DecidableEq

def Selector.matchesLabels (R : GoRuntime) (s : Selector) (labels : Labels) : Bool :=
  s.matchers.all (fun m => m.matchesLabels R labels)

inductive ParseError where
  | missingOpenBrace
  | expectedCommaOrBrace (pos : Nat)
  | trailingInput (pos : Nat)
  | emptySelector
  | expectedLabelName (pos : Nat)
  | expectedOperator (pos : Nat)
  | expectedQuotedValue (pos : Nat)
  | unterminatedQuoted (start : Nat)
  | unterminatedRaw (start : Nat)
  | invalidSyntax
  | invalidRegex (value : GoString)
  | outOfFuel
  deriving DecidableEq

structure Parser where
  s : GoString
  pos : Nat
  allowDots : Bool
  deriving DecidableEq

namespace Parser

def rest (p : Parser) : GoString := p.s.drop p.pos

def advance (p : Parser) (n : Nat) : Parser := { p with pos := p.pos + n }

def eof (p : Parser) : Bool := p.s.length ≤ p.pos

def peek (p : Parser) : UInt8 := p.s[p.pos]?.getD 0

def consume (p : Parser) (c : UInt8) : Option Parser :=
  if p.s[p.pos]? = some c then some (p.advance 1) else none

/-- Space, tab, line feed and carriage return. -/
def isSpace (c : UInt8) : Bool := c = 0x20 || c = 0x09 || c = 0x0A || c = 0x0D

def skipSpace (p : Parser) : Parser := p.advance (p.rest.takeWhile isSpace).length

end Parser

def nameStart (c : UInt8) : Bool :=
  c = 0x5F || (0x61 ≤ c && c ≤ 0x7A) || (0x41 ≤ c && c ≤ 0x5A)

def namePart (allowDots : Bool) (c : UInt8) : Bool :=
  nameStart c || (0x30 ≤ c && c ≤ 0x39) || (allowDots && c = 0x2E)

/-- How far the label-name loop runs: digits and dots count only after the first byte. -/
def labelNameLength (allowDots : Bool) : GoString → Nat
  | [] => 0
  | c :: rest => if nameStart c then 1 + (rest.takeWhile (namePart allowDots)).length else 0

def parseLabelName (p : Parser) : Except ParseError (GoString × Parser) :=
  let n := labelNameLength p.allowDots p.rest
  if n = 0 then .error (.expectedLabelName p.pos) else .ok (p.rest.take n, p.advance n)

def parseOp (p : Parser) : Except ParseError (Op × Parser) :=
  if hasPrefix p.rest (lit "=~") then .ok (.re, p.advance 2)
  else if hasPrefix p.rest (lit "!~") then .ok (.nre, p.advance 2)
  else if hasPrefix p.rest (lit "!=") then .ok (.neq, p.advance 2)
  else if hasPrefix p.rest (lit "=") then .ok (.eq, p.advance 1)
  else .error (.expectedOperator p.pos)

/-- The bytes up to and with the closing double quote; an escape pair may overshoot. -/
def quotedLength : GoString → Option Nat
  | [] => none
  | [c] => if c = 0x22 then some 1 else none
  | c :: d :: rest =>
    if c = 0x5C then (quotedLength rest).map (· + 2)
    else if c = 0x22 then some 1
    else (quotedLength (d :: rest)).map (· + 1)

/-- The bytes up to and with the closing back quote. -/
def rawLength : GoString → Option Nat
  | [] => none
  | c :: rest => if c = 0x60 then some 1 else (rawLength rest).map (· + 1)

/-- A token of this length is cut out and unquoted. -/
def unquoteToken (R : GoRuntime) (p : Parser) (length : Nat) :
    Except ParseError (GoString × Parser) :=
  match R.unquote (p.rest.take length) with
  | some value => .ok (value, p.advance length)
  | none => .error .invalidSyntax

def parseQuotedValue (R : GoRuntime) (p : Parser) : Except ParseError (GoString × Parser) :=
  if p.peek = 0x22 then
    match quotedLength (p.rest.drop 1) with
    | some n => unquoteToken R p (n + 1)
    | none => .error (.unterminatedQuoted p.pos)
  else if p.peek = 0x60 then
    match rawLength (p.rest.drop 1) with
    | some n => unquoteToken R p (n + 1)
    | none => .error (.unterminatedRaw p.pos)
  else .error (.expectedQuotedValue p.pos)

def parseMatcher (R : GoRuntime) (p : Parser) : Except ParseError (Matcher × Parser) := do
  let (name, p) ← parseLabelName p
  let (op, p) ← parseOp p.skipSpace
  let (value, p) ← parseQuotedValue R p.skipSpace
  if (op = .re ∨ op = .nre) ∧ R.compiles (anchored value) = false then .error (.invalidRegex value)
  else .ok (⟨name, op, value⟩, p)

/-- The matcher loop; a trailing comma is tolerated. -/
def parseMatchers (R : GoRuntime) : Nat → Parser → List Matcher →
    Except ParseError (List Matcher × Parser)
  | 0, _, _ => .error .outOfFuel
  | fuel + 1, p, ms =>
    let p := p.skipSpace
    if p.peek = 0x7D then .ok (ms, p)
    else do
      let (m, p) ← parseMatcher R p
      let p := p.skipSpace
      match p.consume 0x2C with
      | some p => parseMatchers R fuel p (ms ++ [m])
      | none => .ok (ms ++ [m], p)

def parseWith (R : GoRuntime) (input : GoString) (allowDots : Bool) : Except ParseError Selector :=
  match (Parser.mk input 0 allowDots).skipSpace.consume 0x7B with
  | none => .error .missingOpenBrace
  | some p => do
    -- Every round but the last consumes a comma, so the length is enough fuel.
    let (ms, p) ← parseMatchers R (input.length + 1) p []
    let p := p.skipSpace
    match p.consume 0x7D with
    | none => .error (.expectedCommaOrBrace p.pos)
    | some p =>
      let p := p.skipSpace
      if p.eof = false then .error (.trailingInput p.pos)
      else if ms = [] then .error .emptySelector
      else .ok ⟨ms⟩

def parse (R : GoRuntime) (input : GoString) : Except ParseError Selector := parseWith R input false

def parseDotted (R : GoRuntime) (input : GoString) : Except ParseError Selector :=
  parseWith R input true

/-- A scanning step moves forward over the same input and never reports missing fuel. -/
def Forward {α : Type} (p : Parser) (r : Except ParseError (α × Parser)) : Prop :=
  r ≠ .error .outOfFuel ∧ ∀ a q, r = .ok (a, q) → q.s = p.s ∧ p.pos ≤ q.pos

private theorem forward_error {α : Type} {p : Parser} {e : ParseError} (other : e ≠ .outOfFuel) :
    Forward p (.error e : Except ParseError (α × Parser)) :=
  ⟨by simpa using other, by simp⟩

private theorem forward_advance {α : Type} (p : Parser) (a : α) (n : Nat) :
    Forward p (.ok (a, p.advance n)) := by
  refine ⟨by simp, ?_⟩
  rintro b q same
  cases same
  exact ⟨rfl, Nat.le_add_right _ _⟩

private theorem forward_bind {α β : Type} {p : Parser} {r : Except ParseError (α × Parser)}
    {f : α × Parser → Except ParseError (β × Parser)} (first : Forward p r)
    (second : ∀ a q, Forward q (f (a, q))) : Forward p (r >>= f) := by
  cases r with
  | error e => exact ⟨by simpa [bind, Except.bind] using first.1, by simp [bind, Except.bind]⟩
  | ok x =>
    obtain ⟨a, q⟩ := x
    obtain ⟨same, le⟩ := first.2 a q rfl
    obtain ⟨fuelled, onward⟩ := second a q
    refine ⟨fuelled, fun b t result => ?_⟩
    obtain ⟨same', le'⟩ := onward b t result
    exact ⟨same'.trans same, le.trans le'⟩

private theorem forward_skipSpace {α : Type} {p : Parser} {r : Except ParseError (α × Parser)}
    (forward : Forward p.skipSpace r) : Forward p r :=
  ⟨forward.1, fun a q result =>
    ⟨(forward.2 a q result).1, (Nat.le_add_right _ _).trans (forward.2 a q result).2⟩⟩

private theorem forward_parseLabelName (p : Parser) : Forward p (parseLabelName p) := by
  unfold parseLabelName
  dsimp only
  split
  · exact forward_error (by simp)
  · exact forward_advance p _ _

private theorem forward_parseOp (p : Parser) : Forward p (parseOp p) := by
  unfold parseOp
  repeat' split
  all_goals first
    | exact forward_advance p _ _
    | exact forward_error (by simp)

private theorem forward_unquoteToken (R : GoRuntime) (p : Parser) (n : Nat) :
    Forward p (unquoteToken R p n) := by
  unfold unquoteToken
  split
  · exact forward_advance p _ _
  · exact forward_error (by simp)

private theorem forward_parseQuotedValue (R : GoRuntime) (p : Parser) :
    Forward p (parseQuotedValue R p) := by
  unfold parseQuotedValue
  repeat' split
  all_goals first
    | exact forward_unquoteToken R p _
    | exact forward_error (by simp)

private theorem forward_parseMatcher (R : GoRuntime) (p : Parser) :
    Forward p (parseMatcher R p) := by
  refine forward_bind (forward_parseLabelName p) (fun name p₁ => ?_)
  refine forward_bind (forward_skipSpace (forward_parseOp p₁.skipSpace)) (fun op p₂ => ?_)
  refine forward_bind (forward_skipSpace (forward_parseQuotedValue R p₂.skipSpace))
    (fun value p₃ => ?_)
  dsimp only
  split
  · exact forward_error (by simp)
  · exact forward_advance p₃ _ 0

private theorem parseMatchers_fuel (R : GoRuntime) (fuel : Nat) (p : Parser) (ms : List Matcher)
    (enough : p.s.length - p.pos < fuel) : parseMatchers R fuel p ms ≠ .error .outOfFuel := by
  induction fuel generalizing p ms with
  | zero => omega
  | succ fuel ih =>
    rw [parseMatchers]
    split
    · simp
    · have forward := forward_skipSpace (forward_parseMatcher R p.skipSpace)
      cases result : parseMatcher R p.skipSpace with
      | error e =>
        have := forward.1
        rw [result] at this
        simpa [bind, Except.bind] using this
      | ok x =>
        obtain ⟨m, q⟩ := x
        obtain ⟨same, le⟩ := forward.2 m q result
        simp only [bind, Except.bind]
        cases comma : q.skipSpace.consume 0x2C with
        | none => simp
        | some t =>
          simp only [Parser.consume, Option.ite_none_right_eq_some, Option.some.injEq] at comma
          obtain ⟨here, rfl⟩ := comma
          have inside := (List.getElem?_eq_some_iff.mp here).1
          refine ih _ _ ?_
          simp only [Parser.skipSpace, Parser.advance] at inside ⊢
          rw [same] at inside ⊢
          omega

theorem parseWith_ne_outOfFuel (R : GoRuntime) (input : GoString) (allowDots : Bool) :
    parseWith R input allowDots ≠ .error .outOfFuel := by
  unfold parseWith
  split
  · simp
  · rename_i p opened
    simp only [Parser.consume, Option.ite_none_right_eq_some, Option.some.injEq] at opened
    obtain ⟨-, rfl⟩ := opened
    have enough := parseMatchers_fuel R (input.length + 1)
      ((Parser.mk input 0 allowDots).skipSpace.advance 1) []
      (Nat.lt_succ_of_le (Nat.sub_le input.length _))
    cases result : parseMatchers R (input.length + 1)
      ((Parser.mk input 0 allowDots).skipSpace.advance 1) [] with
    | error e =>
      rw [result] at enough
      simpa [bind, Except.bind] using enough
    | ok x =>
      simp only [bind, Except.bind]
      repeat' split
      all_goals simp

namespace Parser

theorem rest_advance (p : Parser) (n : Nat) : (p.advance n).rest = p.rest.drop n := by
  simp [rest, advance]

theorem advance_advance (p : Parser) (m n : Nat) : (p.advance m).advance n = p.advance (m + n) := by
  simp [advance, Nat.add_assoc]

private theorem getElem?_pos (p : Parser) : p.s[p.pos]? = p.rest.head? := List.head?_drop.symm

theorem peek_of_rest {p : Parser} {c : UInt8} {t : GoString} (unread : p.rest = c :: t) :
    p.peek = c := by
  rw [peek, getElem?_pos, unread]
  rfl

theorem consume_of_rest {p : Parser} {c : UInt8} {t : GoString} (unread : p.rest = c :: t)
    (d : UInt8) : p.consume d = if c = d then some (p.advance 1) else none := by
  simp only [consume, getElem?_pos, unread, List.head?_cons, Option.some.injEq]

theorem skipSpace_of_rest {p : Parser} {c : UInt8} {t : GoString} (unread : p.rest = c :: t)
    (solid : isSpace c = false) : p.skipSpace = p := by
  rw [skipSpace, unread, List.takeWhile_cons_of_neg (by simp [solid])]
  rfl

theorem skipSpace_of_rest_nil {p : Parser} (unread : p.rest = []) : p.skipSpace = p := by
  rw [skipSpace, unread]
  rfl

theorem eof_of_rest_nil {p : Parser} (unread : p.rest = []) : p.eof = true :=
  decide_eq_true (List.drop_eq_nil_iff.mp unread)

end Parser

theorem quotedLength_of_escaped {body : GoString} (escaped : Escaped body) (tail : GoString) :
    quotedLength (body ++ 0x22 :: tail) = some (body.length + 1) := by
  induction escaped with
  | nil => cases tail <;> simp [quotedLength]
  | @plain c s quote backslash _ ih =>
    obtain ⟨d, t, more⟩ := List.exists_cons_of_ne_nil (l := s ++ 0x22 :: tail) (by simp)
    rw [more] at ih
    rw [List.cons_append, more, quotedLength, if_neg backslash, if_neg quote, ih]
    rfl
  | pair c _ ih =>
    rw [List.cons_append, List.cons_append, quotedLength, if_pos rfl, ih]
    rfl

end SignalAgent.Selectors.SelectorMatch

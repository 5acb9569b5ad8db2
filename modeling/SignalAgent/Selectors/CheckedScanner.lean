/- MID: SignalAgent/Selectors/CheckedScanner
   layer: results
   source: components/selectormatch/selector.go
   digest: The scanner with checked indices and counted loops never faults and is the parser. -/

import SignalAgent.Selectors.SelectorGrammar

set_option autoImplicit false
set_option relaxedAutoImplicit false

namespace SignalAgent.Selectors.CheckedScanner

open Foundations.GoText Foundations.GoQuote
open SelectorMatch SelectorGrammar

/-- How a scan ends without a selector: an index or slice out of range, a loop that used up its
turns, or an error that is returned. -/
inductive Stop where
  | outOfRange
  | outOfTurns
  | failed (e : ParseError)
  deriving DecidableEq

abbrev Scan := Except Stop

/-- `s[i]`. -/
def byteAt (s : GoString) (i : Nat) : Scan UInt8 :=
  match s[i]? with
  | some c => .ok c
  | none => .error .outOfRange

/-- `s[i:]`. -/
def sliceFrom (s : GoString) (i : Nat) : Scan GoString :=
  if i ≤ s.length then .ok (s.drop i) else .error .outOfRange

/-- `s[i:j]`. -/
def slice (s : GoString) (i j : Nat) : Scan GoString :=
  if i ≤ j ∧ j ≤ s.length then .ok ((s.drop i).take (j - i)) else .error .outOfRange

def peek (p : Parser) : Scan UInt8 := if p.eof then .ok 0 else byteAt p.s p.pos

def consume (p : Parser) (c : UInt8) : Scan (Option Parser) :=
  if p.eof then .ok none
  else do
    let d ← byteAt p.s p.pos
    return if d = c then some (p.advance 1) else none

def skipSpaceLoop : Nat → Parser → Scan Parser
  | 0, _ => .error .outOfTurns
  | turns + 1, p =>
    if p.eof then .ok p
    else do
      let c ← byteAt p.s p.pos
      if Parser.isSpace c then skipSpaceLoop turns (p.advance 1) else return p

/-- A loop has as many turns as the input has bytes, and one to see its end. -/
def turns (p : Parser) : Nat := p.s.length + 1

def skipSpace (p : Parser) : Scan Parser := skipSpaceLoop (turns p) p

def labelNameLoop (start : Nat) : Nat → Parser → Scan Parser
  | 0, _ => .error .outOfTurns
  | turns + 1, p =>
    if p.eof then .ok p
    else do
      let c ← byteAt p.s p.pos
      if c = 0x5F || (0x61 ≤ c && c ≤ 0x7A) || (0x41 ≤ c && c ≤ 0x5A) ||
          (start < p.pos && (0x30 ≤ c && c ≤ 0x39)) ||
          (start < p.pos && p.allowDots && c = 0x2E) then
        labelNameLoop start turns (p.advance 1)
      else return p

def scanLabelName (p : Parser) : Scan (GoString × Parser) := do
  let q ← labelNameLoop p.pos (turns p) p
  if q.pos = p.pos then throw (.failed (.expectedLabelName q.pos))
  else
    let name ← slice q.s p.pos q.pos
    return (name, q)

def scanOp (p : Parser) : Scan (Op × Parser) := do
  let rest ← sliceFrom p.s p.pos
  if hasPrefix rest (lit "=~") then return (.re, p.advance 2)
  else if hasPrefix rest (lit "!~") then return (.nre, p.advance 2)
  else if hasPrefix rest (lit "!=") then return (.neq, p.advance 2)
  else if hasPrefix rest (lit "=") then return (.eq, p.advance 1)
  else throw (.failed (.expectedOperator p.pos))

/-- `strconv.Unquote` of the bytes from `start` to the position. -/
def unquoteFrom (R : GoRuntime) (start : Nat) (p : Parser) : Scan (GoString × Parser) := do
  let token ← slice p.s start p.pos
  match R.unquote token with
  | some value => return (value, p)
  | none => throw (.failed .invalidSyntax)

/-- The position may pass the end by one behind a backslash; the loop ends there. -/
def quotedLoop (R : GoRuntime) (start : Nat) : Nat → Parser → Scan (GoString × Parser)
  | 0, _ => .error .outOfTurns
  | turns + 1, p =>
    if p.eof then .error (.failed (.unterminatedQuoted start))
    else do
      let c ← byteAt p.s p.pos
      if c = 0x5C then quotedLoop R start turns (p.advance 2)
      else if c = 0x22 then unquoteFrom R start (p.advance 1)
      else quotedLoop R start turns (p.advance 1)

def rawLoop (R : GoRuntime) (start : Nat) : Nat → Parser → Scan (GoString × Parser)
  | 0, _ => .error .outOfTurns
  | turns + 1, p =>
    if p.eof then .error (.failed (.unterminatedRaw start))
    else do
      let c ← byteAt p.s p.pos
      if c = 0x60 then unquoteFrom R start (p.advance 1)
      else rawLoop R start turns (p.advance 1)

def scanQuotedValue (R : GoRuntime) (p : Parser) : Scan (GoString × Parser) := do
  let c ← peek p
  if c = 0x22 then quotedLoop R p.pos (turns p) (p.advance 1)
  else if c = 0x60 then rawLoop R p.pos (turns p) (p.advance 1)
  else throw (.failed (.expectedQuotedValue p.pos))

def scanMatcher (R : GoRuntime) (p : Parser) : Scan (Matcher × Parser) := do
  let (name, p) ← scanLabelName p
  let p ← skipSpace p
  let (op, p) ← scanOp p
  let p ← skipSpace p
  let (value, p) ← scanQuotedValue R p
  if (op = .re ∨ op = .nre) ∧ R.compiles (anchored value) = false then
    throw (.failed (.invalidRegex value))
  else return (⟨name, op, value⟩, p)

def scanMatchers (R : GoRuntime) : Nat → Parser → List Matcher → Scan (List Matcher × Parser)
  | 0, _, _ => .error .outOfTurns
  | turns + 1, p, ms => do
    let p ← skipSpace p
    let c ← peek p
    if c = 0x7D then return (ms, p)
    else
      let (m, p) ← scanMatcher R p
      let p ← skipSpace p
      match ← consume p 0x2C with
      | some p => scanMatchers R turns p (ms ++ [m])
      | none => return (ms ++ [m], p)

/-- The whole scan of one input. -/
def scan (R : GoRuntime) (input : GoString) (allowDots : Bool) : Scan Selector := do
  let p ← skipSpace ⟨input, 0, allowDots⟩
  match ← consume p 0x7B with
  | none => throw (.failed .missingOpenBrace)
  | some p =>
    let (ms, p) ← scanMatchers R (turns p) p []
    let p ← skipSpace p
    match ← consume p 0x7D with
    | none => throw (.failed (.expectedCommaOrBrace p.pos))
    | some p =>
      let p ← skipSpace p
      if p.eof = false then throw (.failed (.trailingInput p.pos))
      else if ms = [] then throw (.failed .emptySelector)
      else return ⟨ms⟩

/-- An error of the parser as the end of a scan. -/
def ended : ParseError → Stop
  | .outOfFuel => .outOfTurns
  | e => .failed e

/-- The result of the parser as the result of a scan. -/
def scanned {α : Type} : Except ParseError α → Scan α
  | .ok a => .ok a
  | .error e => .error (ended e)

section Steps

variable {p : Parser}

private theorem eof_cons {c : UInt8} {t : GoString} (unread : p.rest = c :: t) :
    p.eof = false ∧ byteAt p.s p.pos = .ok c := by
  have here : p.s[p.pos]? = some c := by
    rw [← List.head?_drop]
    change p.rest.head? = some c
    rw [unread]
    rfl
  have inside := (List.getElem?_eq_some_iff.mp here).1
  refine ⟨?_, by rw [byteAt, here]⟩
  rw [Parser.eof, decide_eq_false_iff_not]
  omega

private theorem rest_advance_cons {c : UInt8} {t : GoString} (unread : p.rest = c :: t) :
    (p.advance 1).rest = t := by
  rw [Parser.rest_advance, unread, List.drop_one, List.tail_cons]

theorem peek_eq (p : Parser) : peek p = .ok p.peek := by
  cases unread : p.rest with
  | nil =>
    have beyond := Parser.eof_of_rest_nil unread
    have absent : p.s[p.pos]? = none := List.getElem?_eq_none (of_decide_eq_true beyond)
    rw [peek, beyond, if_pos rfl, Parser.peek, absent]
    rfl
  | cons c t =>
    obtain ⟨more, byte⟩ := eof_cons unread
    rw [peek, more, if_neg Bool.false_ne_true, byte, Parser.peek_of_rest unread]

theorem consume_eq (p : Parser) (c : UInt8) : consume p c = .ok (p.consume c) := by
  cases unread : p.rest with
  | nil =>
    have beyond := Parser.eof_of_rest_nil unread
    have absent : p.s[p.pos]? = none := List.getElem?_eq_none (of_decide_eq_true beyond)
    rw [consume, beyond, if_pos rfl, Parser.consume, absent]
    rfl
  | cons d t =>
    obtain ⟨more, byte⟩ := eof_cons unread
    rw [consume, more, if_neg Bool.false_ne_true, byte, Parser.consume_of_rest unread]
    rfl

private theorem skipSpaceLoop_eq (n : Nat) (p : Parser) (enough : p.rest.length < n) :
    skipSpaceLoop n p = .ok p.skipSpace := by
  induction n generalizing p with
  | zero => exact absurd enough (Nat.not_lt_zero _)
  | succ n ih =>
    cases unread : p.rest with
    | nil =>
      rw [skipSpaceLoop, Parser.eof_of_rest_nil unread, if_pos rfl,
        Parser.skipSpace_of_rest_nil unread]
    | cons c t =>
      obtain ⟨more, byte⟩ := eof_cons unread
      have after := rest_advance_cons unread
      rw [skipSpaceLoop, more, if_neg Bool.false_ne_true, byte]
      dsimp only [bind, Except.bind]
      by_cases space : Parser.isSpace c = true
      · rw [if_pos space, ih _ (by rw [after]; rw [unread] at enough; simpa using enough)]
        rw [Parser.skipSpace, Parser.skipSpace, after, unread, Parser.advance_advance,
          List.takeWhile_cons_of_pos space, List.length_cons, Nat.add_comm]
      · rw [if_neg space, Parser.skipSpace_of_rest unread (Bool.eq_false_iff.mpr space)]
        rfl

private theorem rest_lt_turns (p : Parser) : p.rest.length < turns p := by
  rw [Parser.rest, List.length_drop, turns]
  omega

theorem skipSpace_eq (p : Parser) : skipSpace p = .ok p.skipSpace :=
  skipSpaceLoop_eq (turns p) p (rest_lt_turns p)

private theorem labelNameLoop_part (start n : Nat) (p : Parser) (behind : start < p.pos)
    (enough : p.rest.length < n) :
    labelNameLoop start n p =
      .ok (p.advance (p.rest.takeWhile (namePart p.allowDots)).length) := by
  induction n generalizing p with
  | zero => exact absurd enough (Nat.not_lt_zero _)
  | succ n ih =>
    cases unread : p.rest with
    | nil =>
      rw [labelNameLoop, Parser.eof_of_rest_nil unread, if_pos rfl]
      rfl
    | cons c t =>
      obtain ⟨more, byte⟩ := eof_cons unread
      have after := rest_advance_cons unread
      have accepts : (c = 0x5F || (0x61 ≤ c && c ≤ 0x7A) || (0x41 ≤ c && c ≤ 0x5A) ||
          (start < p.pos && (0x30 ≤ c && c ≤ 0x39)) ||
          (start < p.pos && p.allowDots && c = 0x2E)) = namePart p.allowDots c := by
        simp only [behind, decide_true, Bool.true_and, namePart, nameStart]
      rw [labelNameLoop, more, if_neg Bool.false_ne_true, byte]
      dsimp only [bind, Except.bind]
      rw [accepts]
      by_cases part : namePart p.allowDots c = true
      · rw [if_pos part, ih _ (Nat.lt_succ_of_lt behind) (by
          rw [after]
          rw [unread] at enough
          simpa using enough)]
        rw [after, Parser.advance_advance, List.takeWhile_cons_of_pos part, List.length_cons,
          Nat.add_comm]
        rfl
      · rw [if_neg part, List.takeWhile_cons_of_neg part]
        rfl

private theorem labelNameLoop_eq (n : Nat) (p : Parser) (enough : p.rest.length < n) :
    labelNameLoop p.pos n p = .ok (p.advance (labelNameLength p.allowDots p.rest)) := by
  cases n with
  | zero => exact absurd enough (Nat.not_lt_zero _)
  | succ n =>
    cases unread : p.rest with
    | nil =>
      rw [labelNameLoop, Parser.eof_of_rest_nil unread, if_pos rfl]
      rfl
    | cons c t =>
      obtain ⟨more, byte⟩ := eof_cons unread
      have after := rest_advance_cons unread
      have accepts : (c = 0x5F || (0x61 ≤ c && c ≤ 0x7A) || (0x41 ≤ c && c ≤ 0x5A) ||
          (p.pos < p.pos && (0x30 ≤ c && c ≤ 0x39)) ||
          (p.pos < p.pos && p.allowDots && c = 0x2E)) = nameStart c := by
        simp only [Nat.lt_irrefl, decide_false, Bool.false_and, Bool.or_false, nameStart]
      rw [labelNameLoop, more, if_neg Bool.false_ne_true, byte]
      dsimp only [bind, Except.bind]
      rw [accepts, labelNameLength]
      by_cases start : nameStart c = true
      · rw [if_pos start, if_pos start, labelNameLoop_part p.pos n (p.advance 1)
          (Nat.lt_succ_self _) (by
            rw [after]
            rw [unread] at enough
            simpa using enough), after, Parser.advance_advance]
        rfl
      · rw [if_neg start, if_neg start]
        rfl

private theorem slice_eq {n : Nat} (positive : n ≠ 0) (inside : n ≤ p.rest.length) :
    slice p.s p.pos (p.pos + n) = .ok (p.rest.take n) := by
  rw [Parser.rest, List.length_drop] at inside
  rw [slice, if_pos ⟨by omega, by omega⟩, Nat.add_sub_cancel_left]
  rfl

private theorem labelNameLength_le (allowDots : Bool) (t : GoString) :
    labelNameLength allowDots t ≤ t.length := by
  cases t with
  | nil => exact Nat.le_refl _
  | cons c t =>
    rw [labelNameLength]
    split
    · have inside := (List.takeWhile_prefix (namePart allowDots) (l := t)).length_le
      rw [List.length_cons]
      omega
    · exact Nat.zero_le _

theorem scanLabelName_eq (p : Parser) : scanLabelName p = scanned (parseLabelName p) := by
  rw [scanLabelName, labelNameLoop_eq (turns p) p (rest_lt_turns p), parseLabelName]
  dsimp only [bind, Except.bind]
  by_cases none : labelNameLength p.allowDots p.rest = 0
  · rw [if_pos none, none, if_pos (show (p.advance 0).pos = p.pos from rfl)]
    rfl
  · rw [if_neg none, if_neg (by simpa [Parser.advance] using none)]
    have token := slice_eq none (labelNameLength_le p.allowDots p.rest)
    change (slice p.s p.pos (p.pos + labelNameLength p.allowDots p.rest) >>= _) = _
    rw [token]
    rfl

theorem scanOp_eq (p : Parser) (inside : p.pos ≤ p.s.length) :
    scanOp p = scanned (parseOp p) := by
  have rest_eq : sliceFrom p.s p.pos = .ok p.rest := by
    rw [sliceFrom, if_pos inside]
    rfl
  rw [scanOp, rest_eq, parseOp]
  dsimp only [bind, Except.bind]
  by_cases re : hasPrefix p.rest (lit "=~") = true
  · rw [if_pos re, if_pos re]
    rfl
  rw [if_neg re, if_neg re]
  by_cases nre : hasPrefix p.rest (lit "!~") = true
  · rw [if_pos nre, if_pos nre]
    rfl
  rw [if_neg nre, if_neg nre]
  by_cases neq : hasPrefix p.rest (lit "!=") = true
  · rw [if_pos neq, if_pos neq]
    rfl
  rw [if_neg neq, if_neg neq]
  by_cases eq : hasPrefix p.rest (lit "=") = true
  · rw [if_pos eq, if_pos eq]
    rfl
  rw [if_neg eq, if_neg eq]
  rfl

variable {R : GoRuntime}

private theorem unquoteFrom_eq {n : Nat} (inside : n + 1 ≤ p.rest.length) :
    unquoteFrom R p.pos ((p.advance 1).advance n) = scanned (unquoteToken R p (n + 1)) := by
  have token := slice_eq (p := p) (Nat.succ_ne_zero n) inside
  rw [unquoteFrom, Parser.advance_advance, Nat.add_comm 1 n]
  change (slice p.s p.pos (p.pos + (n + 1)) >>= _) = _
  rw [token, unquoteToken]
  change (match R.unquote (p.rest.take (n + 1)) with | some _ => _ | none => _) = _
  cases R.unquote (p.rest.take (n + 1)) <;> rfl

private theorem unquoteFrom_map (start count : Nat) (p : Parser) (found : Option Nat)
    (otherwise : Scan (GoString × Parser)) :
    (match found.map (· + count) with
      | some length => unquoteFrom R start (p.advance length)
      | none => otherwise) =
    match found with
      | some length => unquoteFrom R start ((p.advance count).advance length)
      | none => otherwise := by
  cases found with
  | none => rfl
  | some length => simp only [Option.map_some, Parser.advance_advance, Nat.add_comm]

private theorem quotedLoop_eq (start n : Nat) (p : Parser) (enough : p.rest.length < n) :
    quotedLoop R start n p =
      match quotedLength p.rest with
      | some length => unquoteFrom R start (p.advance length)
      | none => .error (.failed (.unterminatedQuoted start)) := by
  induction n generalizing p with
  | zero => exact absurd enough (Nat.not_lt_zero _)
  | succ n ih =>
    cases unread : p.rest with
    | nil =>
      rw [quotedLoop, Parser.eof_of_rest_nil unread, if_pos rfl]
      rfl
    | cons c t =>
      obtain ⟨more, byte⟩ := eof_cons unread
      have after := rest_advance_cons unread
      have skipped : (p.advance 2).rest = t.drop 1 := by
        rw [Parser.rest_advance, unread]
        rfl
      rw [unread, List.length_cons] at enough
      rw [quotedLoop, more, if_neg Bool.false_ne_true, byte]
      dsimp only [bind, Except.bind]
      have backslashed := ih (p.advance 2) (by rw [skipped, List.length_drop]; omega)
      have plain := ih (p.advance 1) (by rw [after]; omega)
      rw [backslashed, plain, skipped, after]
      cases t with
      | nil =>
        have single : quotedLength [c] = if c = 0x22 then some 1 else none := by rw [quotedLength]
        rw [single]
        by_cases backslash : c = 0x5C
        · subst backslash
          rfl
        · rw [if_neg backslash]
          by_cases quote : c = 0x22
          · rw [if_pos quote, if_pos quote]
          · rw [if_neg quote, if_neg quote]
            rfl
      | cons d t =>
        rw [quotedLength]
        by_cases backslash : c = 0x5C
        · rw [if_pos backslash, if_pos backslash, List.drop_one, List.tail_cons]
          exact (unquoteFrom_map start 2 p _ _).symm
        · rw [if_neg backslash, if_neg backslash]
          by_cases quote : c = 0x22
          · rw [if_pos quote, if_pos quote]
          · rw [if_neg quote, if_neg quote]
            exact (unquoteFrom_map start 1 p _ _).symm

private theorem rawLoop_eq (start n : Nat) (p : Parser) (enough : p.rest.length < n) :
    rawLoop R start n p =
      match rawLength p.rest with
      | some length => unquoteFrom R start (p.advance length)
      | none => .error (.failed (.unterminatedRaw start)) := by
  induction n generalizing p with
  | zero => exact absurd enough (Nat.not_lt_zero _)
  | succ n ih =>
    cases unread : p.rest with
    | nil =>
      rw [rawLoop, Parser.eof_of_rest_nil unread, if_pos rfl]
      rfl
    | cons c t =>
      obtain ⟨more, byte⟩ := eof_cons unread
      have after := rest_advance_cons unread
      rw [rawLoop, more, if_neg Bool.false_ne_true, byte, rawLength]
      dsimp only [bind, Except.bind]
      by_cases quote : c = 0x60
      · rw [if_pos quote, if_pos quote]
      · rw [if_neg quote, if_neg quote, ih _ (by
          rw [after]
          rw [unread] at enough
          simpa using enough), after]
        exact (unquoteFrom_map start 1 p _ _).symm

private theorem quotedLength_le {t : GoString} {n : Nat} (found : quotedLength t = some n) :
    n ≤ t.length := by
  obtain ⟨body, tail, rfl, -, rfl⟩ := exists_of_quotedLength found
  rw [List.length_append, List.length_cons]
  omega

private theorem rawLength_le {t : GoString} {n : Nat} (found : rawLength t = some n) :
    n ≤ t.length := by
  obtain ⟨body, tail, rfl, -, rfl⟩ := exists_of_rawLength found
  rw [List.length_append, List.length_cons]
  omega

theorem scanQuotedValue_eq (p : Parser) :
    scanQuotedValue R p = scanned (parseQuotedValue R p) := by
  have shorter : (p.advance 1).rest.length < turns p := rest_lt_turns (p.advance 1)
  have behind : p.rest.drop 1 = (p.advance 1).rest := (Parser.rest_advance p 1).symm
  rw [scanQuotedValue, peek_eq, parseQuotedValue]
  dsimp only [bind, Except.bind]
  by_cases quoted : p.peek = 0x22
  · rw [if_pos quoted, if_pos quoted, quotedLoop_eq p.pos _ _ shorter, behind]
    cases found : quotedLength (p.advance 1).rest with
    | none => rfl
    | some n =>
      obtain ⟨t, unread⟩ := rest_of_peek quoted (by decide)
      refine unquoteFrom_eq ?_
      have inside := quotedLength_le found
      rw [rest_advance_cons unread] at inside
      rw [unread, List.length_cons]
      omega
  · rw [if_neg quoted, if_neg quoted]
    by_cases raw : p.peek = 0x60
    · rw [if_pos raw, if_pos raw, rawLoop_eq p.pos _ _ shorter, behind]
      cases found : rawLength (p.advance 1).rest with
      | none => rfl
      | some n =>
        obtain ⟨t, unread⟩ := rest_of_peek raw (by decide)
        refine unquoteFrom_eq ?_
        have inside := rawLength_le found
        rw [rest_advance_cons unread] at inside
        rw [unread, List.length_cons]
        omega
    · rw [if_neg raw, if_neg raw]
      rfl

private theorem inside_of_reads {q : Parser} {text : GoString} (reads : Reads p text q)
    (inside : p.pos ≤ p.s.length) : q.pos ≤ q.s.length := by
  have length := congrArg List.length reads.unread
  rw [List.length_append, Parser.rest, List.length_drop] at length
  rw [reads.moved]
  change p.pos + text.length ≤ p.s.length
  omega

theorem scanMatcher_eq (p : Parser) (inside : p.pos ≤ p.s.length) :
    scanMatcher R p = scanned (parseMatcher R p) := by
  rw [scanMatcher, scanLabelName_eq, parseMatcher]
  cases name_eq : parseLabelName p with
  | error e => rfl
  | ok named =>
    obtain ⟨name, p₁⟩ := named
    obtain ⟨w, -, skipped⟩ := reads_skipSpace p₁
    have reads := (reads_parseLabelName name_eq).2.trans skipped
    change (skipSpace p₁ >>= _) = scanned (parseOp p₁.skipSpace >>= _)
    rw [skipSpace_eq]
    change (scanOp p₁.skipSpace >>= _) = _
    rw [scanOp_eq _ (inside_of_reads reads inside)]
    cases parseOp p₁.skipSpace with
    | error e => rfl
    | ok op_eq =>
      obtain ⟨op, p₂⟩ := op_eq
      change (skipSpace p₂ >>= _) = scanned (parseQuotedValue R p₂.skipSpace >>= _)
      rw [skipSpace_eq]
      change (scanQuotedValue R p₂.skipSpace >>= _) = _
      rw [scanQuotedValue_eq]
      cases parseQuotedValue R p₂.skipSpace with
      | error e => rfl
      | ok valued =>
        dsimp only [bind, Except.bind, scanned]
        by_cases fails : (op = .re ∨ op = .nre) ∧ R.compiles (anchored valued.1) = false
        · rw [if_pos fails, if_pos fails]
          rfl
        · rw [if_neg fails, if_neg fails]
          rfl

theorem scanMatchers_eq (n : Nat) (p : Parser) (ms : List Matcher)
    (inside : p.pos ≤ p.s.length) :
    scanMatchers R n p ms = scanned (parseMatchers R n p ms) := by
  induction n generalizing p ms with
  | zero => rfl
  | succ n ih =>
    obtain ⟨w, -, skipped⟩ := reads_skipSpace p
    have inside₁ := inside_of_reads skipped inside
    rw [scanMatchers, skipSpace_eq, parseMatchers]
    change (peek p.skipSpace >>= _) = _
    rw [peek_eq]
    dsimp only [bind, Except.bind]
    by_cases closed : p.skipSpace.peek = 0x7D
    · rw [if_pos closed, if_pos closed]
      rfl
    · rw [if_neg closed, if_neg closed, scanMatcher_eq _ inside₁]
      cases matcher_eq : parseMatcher R p.skipSpace with
      | error e => rfl
      | ok parsed =>
        obtain ⟨m, p₁⟩ := parsed
        obtain ⟨text, -, reads⟩ := reads_parseMatcher matcher_eq
        obtain ⟨w', -, skipped'⟩ := reads_skipSpace p₁
        dsimp only [scanned]
        rw [skipSpace_eq]
        dsimp only
        rw [consume_eq]
        dsimp only
        cases comma : p₁.skipSpace.consume 0x2C with
        | none => rfl
        | some p₂ =>
          have onward := reads.trans (skipped'.trans (reads_consume comma))
          exact ih p₂ (ms ++ [m]) (inside_of_reads onward inside₁)

theorem scan_eq (R : GoRuntime) (input : GoString) (allowDots : Bool) :
    scan R input allowDots = scanned (parseWith R input allowDots) := by
  obtain ⟨w, -, skipped⟩ := reads_skipSpace (Parser.mk input 0 allowDots)
  rw [scan, skipSpace_eq, parseWith]
  change (consume (Parser.mk input 0 allowDots).skipSpace 0x7B >>= _) = _
  rw [consume_eq]
  dsimp only [bind, Except.bind]
  cases opened : (Parser.mk input 0 allowDots).skipSpace.consume 0x7B with
  | none => rfl
  | some p₁ =>
    have reads := skipped.trans (reads_consume opened)
    have length : turns p₁ = input.length + 1 := by
      rw [turns, reads.moved]
      rfl
    dsimp only
    rw [length, scanMatchers_eq _ _ _ (inside_of_reads reads (Nat.zero_le _))]
    cases parseMatchers R (input.length + 1) p₁ [] with
    | error e => rfl
    | ok parsed =>
      obtain ⟨ms, p₂⟩ := parsed
      dsimp only [scanned]
      rw [skipSpace_eq]
      dsimp only
      rw [consume_eq]
      dsimp only
      cases p₂.skipSpace.consume 0x7D with
      | none => rfl
      | some p₃ =>
        dsimp only
        rw [skipSpace_eq]
        dsimp only
        by_cases trailing : p₃.skipSpace.eof = false
        · rw [if_pos trailing, if_pos trailing]
          rfl
        · rw [if_neg trailing, if_neg trailing]
          by_cases none : ms = []
          · rw [if_pos none, if_pos none]
            rfl
          · rw [if_neg none, if_neg none]
            rfl

end Steps

theorem scan_ends (R : GoRuntime) (input : GoString) (allowDots : Bool) :
    (∃ selector, scan R input allowDots = .ok selector) ∨
      ∃ e, scan R input allowDots = .error (.failed e) := by
  rw [scan_eq]
  cases result : parseWith R input allowDots with
  | ok selector => exact .inl ⟨selector, rfl⟩
  | error e =>
    have fuelled : e ≠ .outOfFuel := by
      rintro rfl
      exact parseWith_ne_outOfFuel R input allowDots result
    have failed : ended e = .failed e := by
      cases e with
      | outOfFuel => exact absurd rfl fuelled
      | _ => rfl
    exact .inr ⟨e, by rw [scanned, failed]⟩

/-- For every input and both dialects the scan ends without a fault, and it returns these matchers
if and only if the input is a selector of the grammar with these matchers, which are unique. -/
theorem scan_accepts_exactly_the_grammar (R : GoRuntime) (input : GoString) (allowDots : Bool) :
    scan R input allowDots ≠ .error .outOfRange ∧ scan R input allowDots ≠ .error .outOfTurns ∧
      (∀ ms, scan R input allowDots = .ok ⟨ms⟩ ↔ SelectorText R allowDots input ms) ∧
      ∀ ms ms', SelectorText R allowDots input ms → SelectorText R allowDots input ms' →
        ms = ms' := by
  have accepted : ∀ ms, scan R input allowDots = .ok ⟨ms⟩ ↔
      SelectorText R allowDots input ms := by
    intro ms
    rw [← parseWith_eq_ok_iff, scan_eq]
    cases parseWith R input allowDots with
    | error e => exact iff_of_false nofun nofun
    | ok selector =>
      rw [scanned, Except.ok.injEq, Except.ok.injEq]
  refine ⟨?_, ?_, accepted, fun ms ms' first second => ?_⟩
  · rcases scan_ends R input allowDots with ⟨selector, result⟩ | ⟨e, result⟩ <;> rw [result] <;>
      exact nofun
  · rcases scan_ends R input allowDots with ⟨selector, result⟩ | ⟨e, result⟩ <;> rw [result] <;>
      exact nofun
  · have same := ((accepted ms).mpr first).symm.trans ((accepted ms').mpr second)
    exact Selector.mk.inj (Except.ok.inj same)

end SignalAgent.Selectors.CheckedScanner

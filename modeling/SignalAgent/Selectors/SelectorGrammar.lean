/- MID: SignalAgent/Selectors/SelectorGrammar
   layer: results
   source: components/selectormatch/selector.go
   digest: The selector grammar as a relation on byte strings; the scanner accepts exactly it. -/

import Mathlib.Data.List.TakeWhile
import SignalAgent.Selectors.SelectorMatch

set_option autoImplicit false
set_option relaxedAutoImplicit false

namespace SignalAgent.Selectors.SelectorGrammar

open Foundations.GoText Foundations.GoQuote
open SelectorMatch

/-- Any run of spaces, tabs, line feeds and carriage returns. -/
def Space (w : GoString) : Prop := ∀ c ∈ w, Parser.isSpace c = true

/-- A label name of the dialect. -/
inductive LabelName (allowDots : Bool) : GoString → Prop where
  | mk {c : UInt8} {t : GoString} (start : nameStart c = true)
      (part : ∀ b ∈ t, namePart allowDots b = true) : LabelName allowDots (c :: t)

def opText : Op → GoString
  | .eq => [0x3D]
  | .neq => [0x21, 0x3D]
  | .re => [0x3D, 0x7E]
  | .nre => [0x21, 0x7E]

/-- A quoted token and the value it is unquoted to. -/
inductive Token (R : GoRuntime) : GoString → GoString → Prop where
  | quoted {body value : GoString} (interior : Escaped body)
      (unquoted : R.unquote (0x22 :: (body ++ [0x22])) = some value) :
      Token R (0x22 :: (body ++ [0x22])) value
  | raw {body value : GoString} (interior : 0x60 ∉ body)
      (unquoted : R.unquote (0x60 :: (body ++ [0x60])) = some value) :
      Token R (0x60 :: (body ++ [0x60])) value

/-- A matcher: a name, an operator and a token, with space between them. -/
inductive Clause (R : GoRuntime) (allowDots : Bool) : GoString → Matcher → Prop where
  | mk {name w w' token value : GoString} {op : Op} (named : LabelName allowDots name)
      (space : Space w) (space' : Space w') (valued : Token R token value)
      (compiles : op = .re ∨ op = .nre → R.compiles (anchored value) = true) :
      Clause R allowDots (name ++ (w ++ (opText op ++ (w' ++ token)))) ⟨name, op, value⟩

/-- Matchers with commas between them. -/
inductive Clauses (R : GoRuntime) (allowDots : Bool) : GoString → List Matcher → Prop where
  | last {text : GoString} {m : Matcher} (clause : Clause R allowDots text m) :
      Clauses R allowDots text [m]
  | cons {text w w' rest : GoString} {m : Matcher} {ms : List Matcher}
      (clause : Clause R allowDots text m) (space : Space w) (space' : Space w')
      (clauses : Clauses R allowDots rest ms) :
      Clauses R allowDots (text ++ (w ++ 0x2C :: (w' ++ rest))) (m :: ms)

/-- The comma that may stand behind the last matcher. -/
inductive Trailer : GoString → Prop where
  | none : Trailer []
  | comma {w : GoString} (space : Space w) : Trailer (w ++ [0x2C])

/-- A whole selector. -/
inductive SelectorText (R : GoRuntime) (allowDots : Bool) : GoString → List Matcher → Prop where
  | mk {w₁ w₂ w₃ w₄ body trailer : GoString} {ms : List Matcher} (before : Space w₁)
      (opened : Space w₂) (clauses : Clauses R allowDots body ms) (trailing : Trailer trailer)
      (closing : Space w₃) (after : Space w₄) :
      SelectorText R allowDots
        (w₁ ++ 0x7B :: (w₂ ++ (body ++ (trailer ++ (w₃ ++ 0x7D :: w₄))))) ms

/-- From `p` to `q` the scanner has read this text. -/
structure Reads (p : Parser) (text : GoString) (q : Parser) : Prop where
  unread : p.rest = text ++ q.rest
  moved : q = p.advance text.length

theorem Reads.of_rest {p : Parser} {text t : GoString} (unread : p.rest = text ++ t) :
    Reads p text (p.advance text.length) ∧ (p.advance text.length).rest = t := by
  have left : (p.advance text.length).rest = t := by
    rw [Parser.rest_advance, unread, List.drop_left]
  exact ⟨⟨by rw [left, unread], rfl⟩, left⟩

theorem Reads.trans {p q r : Parser} {text text' : GoString} (first : Reads p text q)
    (second : Reads q text' r) : Reads p (text ++ text') r where
  unread := by rw [first.unread, second.unread, List.append_assoc]
  moved := by rw [second.moved, first.moved, Parser.advance_advance, List.length_append]

theorem Reads.allowDots_eq {p q : Parser} {text : GoString} (reads : Reads p text q) :
    q.allowDots = p.allowDots := by
  rw [reads.moved]
  rfl

section Sound

variable {R : GoRuntime} {p q : Parser}

theorem reads_skipSpace (p : Parser) : ∃ w, Space w ∧ Reads p w p.skipSpace := by
  obtain ⟨t, split⟩ := List.takeWhile_prefix Parser.isSpace (l := p.rest)
  exact ⟨_, fun c member => List.mem_takeWhile_imp member, (Reads.of_rest split.symm).1⟩

theorem reads_consume {c : UInt8} (consumed : p.consume c = some q) : Reads p [c] q := by
  cases unread : p.rest with
  | nil =>
    have beyond := Parser.eof_of_rest_nil unread
    simp only [Parser.eof, decide_eq_true_eq] at beyond
    rw [Parser.consume, List.getElem?_eq_none beyond, if_neg (by simp)] at consumed
    cases consumed
  | cons d t =>
    rw [Parser.consume_of_rest unread] at consumed
    split at consumed
    · rename_i same
      subst same
      cases consumed
      have split : p.rest = [d] ++ t := unread
      exact (Reads.of_rest split).1
    · cases consumed

theorem reads_parseLabelName {name : GoString} (result : parseLabelName p = .ok (name, q)) :
    LabelName p.allowDots name ∧ Reads p name q := by
  unfold parseLabelName at result
  dsimp only at result
  split at result
  · cases result
  · rename_i positive
    cases result
    cases unread : p.rest with
    | nil => exact absurd (by rw [unread]; rfl) positive
    | cons c t =>
      have start : nameStart c = true := by
        by_contra other
        exact positive (by rw [unread, labelNameLength, if_neg other])
      obtain ⟨t', split⟩ := List.takeWhile_prefix (namePart p.allowDots) (l := t)
      have length : labelNameLength p.allowDots (c :: t) =
          (c :: t.takeWhile (namePart p.allowDots)).length := by
        rw [labelNameLength, if_pos start, List.length_cons, Nat.add_comm]
      have whole : p.rest = c :: t.takeWhile (namePart p.allowDots) ++ t' := by
        rw [unread, List.cons_append, split]
      have taken : p.rest.take (labelNameLength p.allowDots (c :: t)) =
          c :: t.takeWhile (namePart p.allowDots) := by
        rw [whole, length]
        exact List.take_left' rfl
      rw [unread] at taken
      rw [taken, length]
      exact ⟨.mk start fun b member => List.mem_takeWhile_imp member, (Reads.of_rest whole).1⟩

private theorem reads_of_hasPrefix {text : GoString} (starts : hasPrefix p.rest text = true) :
    Reads p text (p.advance text.length) := by
  obtain ⟨t, split⟩ := List.isPrefixOf_iff_prefix.mp starts
  exact (Reads.of_rest split.symm).1

theorem reads_parseOp {op : Op} (result : parseOp p = .ok (op, q)) : Reads p (opText op) q := by
  unfold parseOp at result
  split at result
  · rename_i starts
    cases result
    exact reads_of_hasPrefix starts
  · split at result
    · rename_i starts
      cases result
      exact reads_of_hasPrefix starts
    · split at result
      · rename_i starts
        cases result
        exact reads_of_hasPrefix starts
      · split at result
        · rename_i starts
          cases result
          exact reads_of_hasPrefix starts
        · cases result

theorem exists_of_quotedLength {t : GoString} {n : Nat} (found : quotedLength t = some n) :
    ∃ body tail, t = body ++ 0x22 :: tail ∧ Escaped body ∧ n = body.length + 1 := by
  induction t using quotedLength.induct generalizing n with
  | case1 => cases found
  | case2 =>
    cases found
    exact ⟨[], [], rfl, .nil, rfl⟩
  | case3 c other =>
    rw [quotedLength, if_neg other] at found
    cases found
  | case4 d rest ih =>
    rw [quotedLength, if_pos rfl] at found
    obtain ⟨k, inner, rfl⟩ := Option.map_eq_some_iff.mp found
    obtain ⟨body, tail, rfl, escaped, rfl⟩ := ih inner
    exact ⟨0x5C :: d :: body, tail, rfl, .pair d escaped, rfl⟩
  | case5 d rest plain =>
    rw [quotedLength, if_neg plain, if_pos rfl] at found
    cases found
    exact ⟨[], d :: rest, rfl, .nil, rfl⟩
  | case6 c d rest backslash quote ih =>
    rw [quotedLength, if_neg backslash, if_neg quote] at found
    obtain ⟨k, inner, rfl⟩ := Option.map_eq_some_iff.mp found
    obtain ⟨body, tail, whole, escaped, rfl⟩ := ih inner
    exact ⟨c :: body, tail, by rw [whole, List.cons_append], .plain quote backslash escaped, rfl⟩

theorem exists_of_rawLength {t : GoString} {n : Nat} (found : rawLength t = some n) :
    ∃ body tail, t = body ++ 0x60 :: tail ∧ 0x60 ∉ body ∧ n = body.length + 1 := by
  induction t generalizing n with
  | nil => cases found
  | cons c t ih =>
    rw [rawLength] at found
    split at found
    · rename_i same
      cases found
      exact ⟨[], t, by rw [same, List.nil_append], List.not_mem_nil, rfl⟩
    · rename_i other
      obtain ⟨k, inner, rfl⟩ := Option.map_eq_some_iff.mp found
      obtain ⟨body, tail, rfl, free, rfl⟩ := ih inner
      refine ⟨c :: body, tail, rfl, ?_, rfl⟩
      rw [List.mem_cons, not_or]
      exact ⟨fun same => other same.symm, free⟩

private theorem reads_unquoteToken {text t value : GoString} {n : Nat}
    (unread : p.rest = text ++ t) (length : n = text.length)
    (result : unquoteToken R p n = .ok (value, q)) :
    R.unquote text = some value ∧ Reads p text q := by
  have taken : p.rest.take n = text := by
    rw [unread, length, List.take_left]
  unfold unquoteToken at result
  rw [taken] at result
  split at result
  · rename_i v unquoted
    cases result
    rw [length]
    exact ⟨unquoted, (Reads.of_rest unread).1⟩
  · cases result

theorem rest_of_peek {c : UInt8} (peeked : p.peek = c) (solid : c ≠ 0) :
    ∃ t, p.rest = c :: t := by
  cases unread : p.rest with
  | nil =>
    have beyond := Parser.eof_of_rest_nil unread
    simp only [Parser.eof, decide_eq_true_eq] at beyond
    rw [Parser.peek, List.getElem?_eq_none beyond] at peeked
    exact absurd peeked.symm solid
  | cons d t => exact ⟨t, by rw [← peeked, Parser.peek_of_rest unread]⟩

theorem reads_parseQuotedValue {value : GoString} (result : parseQuotedValue R p = .ok (value, q)) :
    ∃ token, Token R token value ∧ Reads p token q := by
  unfold parseQuotedValue at result
  split at result
  · rename_i peeked
    obtain ⟨t, unread⟩ := rest_of_peek peeked (by decide)
    rw [unread, List.drop_one, List.tail_cons] at result
    split at result
    · rename_i n found
      obtain ⟨body, tail, rfl, escaped, rfl⟩ := exists_of_quotedLength found
      have split : p.rest = 0x22 :: (body ++ [0x22]) ++ tail := by
        rw [unread, List.cons_append, List.append_assoc, List.singleton_append]
      obtain ⟨unquoted, reads⟩ := reads_unquoteToken split (by simp) result
      exact ⟨_, .quoted escaped unquoted, reads⟩
    · cases result
  · split at result
    · rename_i peeked
      obtain ⟨t, unread⟩ := rest_of_peek peeked (by decide)
      rw [unread, List.drop_one, List.tail_cons] at result
      split at result
      · rename_i n found
        obtain ⟨body, tail, rfl, free, rfl⟩ := exists_of_rawLength found
        have split : p.rest = 0x60 :: (body ++ [0x60]) ++ tail := by
          rw [unread, List.cons_append, List.append_assoc, List.singleton_append]
        obtain ⟨unquoted, reads⟩ := reads_unquoteToken split (by simp) result
        exact ⟨_, .raw free unquoted, reads⟩
      · cases result
    · cases result

private theorem bind_eq_ok {ε α β : Type} {r : Except ε α} {f : α → Except ε β} {b : β}
    (result : r >>= f = .ok b) : ∃ a, r = .ok a ∧ f a = .ok b := by
  cases r with
  | error e => cases result
  | ok a => exact ⟨a, rfl, result⟩

theorem reads_parseMatcher {m : Matcher} (result : parseMatcher R p = .ok (m, q)) :
    ∃ text, Clause R p.allowDots text m ∧ Reads p text q := by
  obtain ⟨⟨name, p₁⟩, name_eq, result⟩ := bind_eq_ok result
  obtain ⟨⟨op, p₂⟩, op_eq, result⟩ := bind_eq_ok result
  obtain ⟨⟨value, p₃⟩, value_eq, result⟩ := bind_eq_ok result
  obtain ⟨named, reads₁⟩ := reads_parseLabelName name_eq
  obtain ⟨w, space, skipped⟩ := reads_skipSpace p₁
  obtain ⟨w', space', skipped'⟩ := reads_skipSpace p₂
  obtain ⟨token, valued, reads₃⟩ := reads_parseQuotedValue value_eq
  dsimp only at result
  split at result
  · cases result
  · rename_i compiles
    cases result
    refine ⟨_, .mk named space space' valued ?_, ?_⟩
    · intro regex
      by_contra fails
      exact compiles ⟨regex, Bool.eq_false_iff.mpr fails⟩
    · exact reads₁.trans (skipped.trans ((reads_parseOp op_eq).trans (skipped'.trans reads₃)))

/-- What the matcher loop reads: space, or matchers with space on both sides and commas. -/
inductive LoopText (R : GoRuntime) (allowDots : Bool) : GoString → List Matcher → Prop where
  | stop {w : GoString} (space : Space w) : LoopText R allowDots w []
  | last {w text w' : GoString} {m : Matcher} (space : Space w)
      (clause : Clause R allowDots text m) (space' : Space w') :
      LoopText R allowDots (w ++ (text ++ w')) [m]
  | next {w text w' rest : GoString} {m : Matcher} {ms : List Matcher} (space : Space w)
      (clause : Clause R allowDots text m) (space' : Space w')
      (loop : LoopText R allowDots rest ms) :
      LoopText R allowDots (w ++ (text ++ (w' ++ 0x2C :: rest))) (m :: ms)

theorem reads_parseMatchers {fuel : Nat} {ms ms' : List Matcher}
    (result : parseMatchers R fuel p ms = .ok (ms', q)) :
    ∃ text new, ms' = ms ++ new ∧ LoopText R p.allowDots text new ∧ Reads p text q := by
  induction fuel generalizing p ms with
  | zero => cases result
  | succ fuel ih =>
    obtain ⟨w, space, skipped⟩ := reads_skipSpace p
    rw [parseMatchers] at result
    split at result
    · cases result
      exact ⟨w, [], (List.append_nil _).symm, .stop space, skipped⟩
    · obtain ⟨⟨m, p₁⟩, m_eq, result⟩ := bind_eq_ok result
      obtain ⟨text, clause, reads⟩ := reads_parseMatcher m_eq
      obtain ⟨w', space', skipped'⟩ := reads_skipSpace p₁
      rw [skipped.allowDots_eq] at clause
      dsimp only at result
      split at result
      · rename_i p₂ comma
        have consumed := reads_consume comma
        have onward := reads.trans (skipped'.trans consumed)
        obtain ⟨rest, new, rfl, loop, reads'⟩ := ih result
        rw [onward.allowDots_eq, skipped.allowDots_eq] at loop
        refine ⟨_, m :: new, by simp, .next space clause space' loop, ?_⟩
        simpa only [List.append_assoc, List.singleton_append] using
          skipped.trans (onward.trans reads')
      · cases result
        exact ⟨_, [m], rfl, .last space clause space', skipped.trans (reads.trans skipped')⟩

private theorem Space.append {w w' : GoString} (first : Space w) (second : Space w') :
    Space (w ++ w') := fun c member => (List.mem_append.mp member).elim (first c) (second c)

private theorem exists_clauses_of_loopText {allowDots : Bool} {text : GoString} {ms : List Matcher}
    (loop : LoopText R allowDots text ms) (some : ms ≠ []) :
    ∃ w body trailer w', Space w ∧ Clauses R allowDots body ms ∧ Trailer trailer ∧ Space w' ∧
      text = w ++ (body ++ (trailer ++ w')) := by
  induction loop with
  | stop => exact absurd rfl some
  | last space clause space' => exact ⟨_, _, [], _, space, .last clause, .none, space', rfl⟩
  | @next w text w' rest m ms space clause space' loop ih =>
    cases ms with
    | nil =>
      cases loop with
      | stop space'' =>
        refine ⟨w, text, w' ++ [0x2C], rest, space, .last clause, .comma space', space'', ?_⟩
        simp only [List.append_assoc, List.singleton_append]
    | cons m' ms =>
      obtain ⟨u, body, trailer, u', spaced, clauses, trailing, spaced', rfl⟩ :=
        ih (List.cons_ne_nil _ _)
      refine ⟨w, _, trailer, u', space, .cons clause space' spaced clauses, trailing, spaced', ?_⟩
      simp only [List.append_assoc, List.cons_append]

theorem selectorText_of_parseWith {input : GoString} {allowDots : Bool} {ms : List Matcher}
    (result : parseWith R input allowDots = .ok ⟨ms⟩) : SelectorText R allowDots input ms := by
  unfold parseWith at result
  obtain ⟨w₁, before, skipped₁⟩ := reads_skipSpace (Parser.mk input 0 allowDots)
  split at result
  · cases result
  · rename_i p₁ consumed₁
    have opened := skipped₁.trans (reads_consume consumed₁)
    obtain ⟨⟨ms', p₂⟩, loop_eq, result⟩ := bind_eq_ok result
    obtain ⟨text, new, rfl, loop, reads⟩ := reads_parseMatchers loop_eq
    rw [opened.allowDots_eq] at loop
    obtain ⟨w₃, closing, skipped₃⟩ := reads_skipSpace p₂
    dsimp only at result
    split at result
    · cases result
    · rename_i p₃ consumed₃
      obtain ⟨w₄, after, skipped₄⟩ := reads_skipSpace p₃
      have closed := skipped₃.trans ((reads_consume consumed₃).trans skipped₄)
      split at result
      · cases result
      · rename_i ended
        split at result
        · cases result
        · rename_i some
          cases result
          have nothing : p₃.skipSpace.rest = [] := by
            rw [Bool.not_eq_false, Parser.eof, decide_eq_true_eq] at ended
            exact List.drop_eq_nil_of_le ended
          obtain ⟨w₂, body, trailer, w₂', space, clauses, trailing, space', rfl⟩ :=
            exists_clauses_of_loopText loop some
          have whole := (opened.trans (reads.trans closed)).unread
          rw [nothing] at whole
          have form : input = w₁ ++ 0x7B :: (w₂ ++ (body ++ (trailer ++
              ((w₂' ++ w₃) ++ 0x7D :: w₄)))) := by
            simpa only [Parser.rest, List.drop_zero, List.append_assoc, List.cons_append,
              List.nil_append, List.append_nil] using whole
          rw [form]
          exact .mk before space clauses trailing (space'.append closing) after

end Sound

section Complete

variable {R : GoRuntime} {p : Parser}

private theorem skipSpace_complete {w t : GoString} {c : UInt8} (space : Space w)
    (unread : p.rest = w ++ c :: t) (solid : Parser.isSpace c = false) :
    p.skipSpace = p.advance w.length ∧ p.skipSpace.rest = c :: t := by
  have run : p.rest.takeWhile Parser.isSpace = w := by
    rw [unread, List.takeWhile_append_of_pos space, List.takeWhile_cons_of_neg (by simp [solid]),
      List.append_nil]
  have moved : p.skipSpace = p.advance w.length := by
    rw [Parser.skipSpace, run]
  exact ⟨moved, moved ▸ (Reads.of_rest unread).2⟩

private theorem skipSpace_all {w : GoString} (space : Space w) (unread : p.rest = w) :
    p.skipSpace.rest = [] := by
  have run : p.rest.takeWhile Parser.isSpace = w := by
    rw [unread, List.takeWhile_eq_self_iff]
    exact space
  rw [Parser.skipSpace, run, Parser.rest_advance, unread, List.drop_length]

private theorem isSpace_cases {c : UInt8} (space : Parser.isSpace c = true) :
    c = 0x20 ∨ c = 0x09 ∨ c = 0x0A ∨ c = 0x0D := by
  simpa only [Parser.isSpace, Bool.or_eq_true, decide_eq_true_eq, or_assoc] using space

private theorem nameStart_solid {c : UInt8} (start : nameStart c = true) :
    Parser.isSpace c = false ∧ c ≠ 0x7D := by
  constructor
  · by_contra space
    rcases isSpace_cases (Bool.not_eq_false _ ▸ space) with rfl | rfl | rfl | rfl <;>
      exact absurd start (by decide)
  · rintro rfl
    exact absurd start (by decide)

private theorem namePart_space {allowDots : Bool} {c : UInt8} (space : Parser.isSpace c = true) :
    namePart allowDots c = false := by
  rcases isSpace_cases space with rfl | rfl | rfl | rfl <;> cases allowDots <;> decide

private theorem exists_op_boundary (allowDots : Bool) {w : GoString} (space : Space w) (op : Op)
    (t : GoString) : ∃ d u, w ++ (opText op ++ t) = d :: u ∧ namePart allowDots d = false := by
  cases w with
  | nil => cases op <;> exact ⟨_, _, rfl, by cases allowDots <;> decide⟩
  | cons c w => exact ⟨c, _, rfl, namePart_space (space c List.mem_cons_self)⟩

private theorem exists_token_boundary {w token value : GoString} (space : Space w)
    (valued : Token R token value) (t : GoString) :
    ∃ d u, w ++ (token ++ t) = d :: u ∧ d ≠ 0x7E := by
  cases w with
  | nil => cases valued <;> exact ⟨_, _, rfl, by decide⟩
  | cons c w =>
    refine ⟨c, _, rfl, ?_⟩
    rcases isSpace_cases (space c List.mem_cons_self) with rfl | rfl | rfl | rfl <;> decide

private theorem opText_solid (op : Op) (t : GoString) :
    ∃ d u, opText op ++ t = d :: u ∧ Parser.isSpace d = false := by
  cases op <;> exact ⟨_, _, rfl, by decide⟩

private theorem token_solid {token value : GoString} (valued : Token R token value) (t : GoString) :
    ∃ d u, token ++ t = d :: u ∧ Parser.isSpace d = false := by
  cases valued <;> exact ⟨_, _, rfl, by decide⟩

private theorem parseLabelName_complete {name : GoString} (named : LabelName p.allowDots name)
    {d : UInt8} {u : GoString} (unread : p.rest = name ++ d :: u)
    (ends : namePart p.allowDots d = false) :
    parseLabelName p = .ok (name, p.advance name.length) := by
  cases named with
  | @mk c t start part =>
    have length : labelNameLength p.allowDots p.rest = (c :: t).length := by
      rw [unread, List.cons_append, labelNameLength, if_pos start,
        List.takeWhile_append_of_pos part, List.takeWhile_cons_of_neg (by simp [ends]),
        List.append_nil, List.length_cons, Nat.add_comm]
    have taken : p.rest.take (c :: t).length = c :: t := by
      rw [unread]
      exact List.take_left' rfl
    rw [parseLabelName, length, taken]
    rfl

private theorem parseOp_complete {op : Op} {d : UInt8} {u : GoString}
    (unread : p.rest = opText op ++ d :: u) (ends : d ≠ 0x7E) :
    parseOp p = .ok (op, p.advance (opText op).length) := by
  have tilde : ((0x7E : UInt8) == d) = false := beq_eq_false_iff_ne.mpr (Ne.symm ends)
  rw [parseOp, unread]
  cases op with
  | eq =>
    have longer : hasPrefix (opText .eq ++ d :: u) (lit "=~") = false := by
      change ((0x3D : UInt8) == 0x3D && ((0x7E : UInt8) == d && true)) = false
      rw [tilde]
      rfl
    rw [if_neg (by simp [longer])]
    rfl
  | neq => rfl
  | re => rfl
  | nre => rfl

private theorem rawLength_complete {body : GoString} (free : 0x60 ∉ body) (tail : GoString) :
    rawLength (body ++ 0x60 :: tail) = some (body.length + 1) := by
  induction body with
  | nil => rfl
  | cons c body ih =>
    obtain ⟨other, free⟩ := not_or.mp (mt List.mem_cons.mpr free)
    rw [List.cons_append, rawLength, if_neg (Ne.symm other), ih free]
    rfl

private theorem unquoteToken_complete {token value tail : GoString} {n : Nat}
    (unread : p.rest = token ++ tail) (length : n = token.length)
    (unquoted : R.unquote token = some value) :
    unquoteToken R p n = .ok (value, p.advance token.length) := by
  rw [unquoteToken, unread, length, List.take_left, unquoted]

private theorem parseQuotedValue_complete {token value tail : GoString}
    (valued : Token R token value) (unread : p.rest = token ++ tail) :
    parseQuotedValue R p = .ok (value, p.advance token.length) := by
  cases valued with
  | @quoted body value interior unquoted =>
    have opened : p.rest = 0x22 :: (body ++ 0x22 :: tail) := by
      rw [unread, List.cons_append, List.append_assoc, List.singleton_append]
    rw [parseQuotedValue, Parser.peek_of_rest opened, if_pos rfl]
    rw [show p.rest.drop 1 = body ++ 0x22 :: tail by rw [opened]; rfl,
      quotedLength_of_escaped interior]
    exact unquoteToken_complete unread (by simp) unquoted
  | @raw body value interior unquoted =>
    have opened : p.rest = 0x60 :: (body ++ 0x60 :: tail) := by
      rw [unread, List.cons_append, List.append_assoc, List.singleton_append]
    rw [parseQuotedValue, Parser.peek_of_rest opened, if_neg (by decide), if_pos rfl]
    rw [show p.rest.drop 1 = body ++ 0x60 :: tail by rw [opened]; rfl,
      rawLength_complete interior]
    exact unquoteToken_complete unread (by simp) unquoted

private theorem parseMatcher_complete {text tail : GoString} {m : Matcher}
    (clause : Clause R p.allowDots text m) (unread : p.rest = text ++ tail) :
    parseMatcher R p = .ok (m, p.advance text.length) := by
  cases clause with
  | @mk name w w' token value op named space space' valued compiles =>
    have atName : p.rest = name ++ (w ++ (opText op ++ (w' ++ (token ++ tail)))) := by
      simpa only [List.append_assoc] using unread
    obtain ⟨d, u, boundary, ends⟩ := exists_op_boundary p.allowDots space op (w' ++ (token ++ tail))
    obtain ⟨d', u', boundary', ends'⟩ := exists_token_boundary space' valued tail
    obtain ⟨c, v, opStart, opSolid⟩ := opText_solid op (w' ++ (token ++ tail))
    obtain ⟨c', v', tokenStart, tokenSolid⟩ := token_solid valued tail
    -- The name is read up to the space or the operator behind it.
    have nameRead := parseLabelName_complete named (by rw [atName, boundary]) ends
    have atSpace := (Reads.of_rest atName).2
    rw [opStart] at atSpace
    obtain ⟨skip, atOp⟩ := skipSpace_complete space atSpace opSolid
    rw [← opStart, boundary'] at atOp
    have opRead := parseOp_complete atOp ends'
    have atSpace' := (Reads.of_rest atOp).2
    rw [← boundary', tokenStart] at atSpace'
    obtain ⟨skip', atToken⟩ := skipSpace_complete space' atSpace' tokenSolid
    rw [← tokenStart] at atToken
    have valueRead := parseQuotedValue_complete valued atToken
    rw [parseMatcher, nameRead]
    dsimp only [bind, Except.bind]
    rw [opRead]
    dsimp only
    rw [valueRead]
    dsimp only
    rw [if_neg (fun fails => absurd (compiles fails.1) (by rw [fails.2]; exact Bool.false_ne_true)),
      skip', skip]
    simp only [Parser.advance_advance, List.length_append, Nat.add_assoc]

private theorem clause_solid {allowDots : Bool} {text : GoString} {m : Matcher}
    (clause : Clause R allowDots text m) (t : GoString) :
    ∃ c u, text ++ t = c :: u ∧ Parser.isSpace c = false ∧ c ≠ 0x7D := by
  cases clause with
  | mk named _ _ _ _ =>
    cases named with
    | mk start part => exact ⟨_, _, rfl, nameStart_solid start⟩

private theorem parseMatchers_turn (fuel : Nat) (acc : List Matcher) {w text w' tail : GoString}
    {m : Matcher} {c : UInt8} (space : Space w) (clause : Clause R p.allowDots text m)
    (space' : Space w') (solid : Parser.isSpace c = false)
    (unread : p.rest = w ++ (text ++ (w' ++ c :: tail))) :
    ∃ q, q.rest = c :: tail ∧ q.allowDots = p.allowDots ∧
      parseMatchers R (fuel + 1) p acc =
        if c = 0x2C then parseMatchers R fuel (q.advance 1) (acc ++ [m])
        else .ok (acc ++ [m], q) := by
  obtain ⟨d, u, start, startSolid, brace⟩ := clause_solid clause (w' ++ c :: tail)
  rw [start] at unread
  obtain ⟨skip, atClause⟩ := skipSpace_complete space unread startSolid
  have peeked := Parser.peek_of_rest atClause
  rw [← start] at atClause
  have dots : p.skipSpace.allowDots = p.allowDots := by rw [skip]; rfl
  have read := parseMatcher_complete (dots ▸ clause) atClause
  have atSpace := (Reads.of_rest atClause).2
  obtain ⟨skip', atMark⟩ := skipSpace_complete space' atSpace solid
  refine ⟨(p.skipSpace.advance text.length).skipSpace, atMark, by rw [skip', skip]; rfl, ?_⟩
  rw [parseMatchers, peeked, if_neg brace, read]
  dsimp only [bind, Except.bind]
  rw [Parser.consume_of_rest atMark]
  by_cases comma : c = 0x2C
  · rw [if_pos comma, if_pos comma]
  · rw [if_neg comma, if_neg comma]

private theorem parseMatchers_stop (fuel : Nat) (acc : List Matcher) {w tail : GoString}
    (space : Space w) (unread : p.rest = w ++ 0x7D :: tail) :
    ∃ q, q.rest = 0x7D :: tail ∧ parseMatchers R (fuel + 1) p acc = .ok (acc, q) := by
  obtain ⟨skip, atBrace⟩ := skipSpace_complete space unread (by decide)
  refine ⟨p.skipSpace, atBrace, ?_⟩
  rw [parseMatchers, Parser.peek_of_rest atBrace, if_pos rfl]

private theorem parseMatchers_complete (fuel : Nat) (acc : List Matcher) {ms : List Matcher}
    {allowDots : Bool} {w body trailer w₃ tail : GoString} (dots : p.allowDots = allowDots)
    (clauses : Clauses R allowDots body ms) (space : Space w) (trailing : Trailer trailer)
    (closing : Space w₃) (enough : ms.length < fuel)
    (unread : p.rest = w ++ (body ++ (trailer ++ (w₃ ++ 0x7D :: tail)))) :
    ∃ q, q.rest = 0x7D :: tail ∧ parseMatchers R fuel p acc = .ok (acc ++ ms, q) := by
  induction clauses generalizing p fuel acc w with
  | @last text m clause =>
    subst dots
    obtain ⟨fuel, rfl⟩ : ∃ k, fuel = k + 1 + 1 := ⟨fuel - 2, by simp at enough; omega⟩
    cases trailing with
    | none =>
      obtain ⟨q, atBrace, -, turn⟩ := parseMatchers_turn (fuel + 1) acc space clause closing
        (by decide) unread
      exact ⟨q, atBrace, turn⟩
    | @comma w' space' =>
      rw [List.append_assoc, List.singleton_append] at unread
      obtain ⟨q, atComma, -, turn⟩ := parseMatchers_turn (fuel + 1) acc space clause space'
        (by decide) unread
      rw [if_pos rfl] at turn
      have behind : (q.advance 1).rest = w₃ ++ 0x7D :: tail := by
        rw [Parser.rest_advance, atComma]
        rfl
      obtain ⟨q', atBrace, stop⟩ := parseMatchers_stop fuel (acc ++ [m]) closing behind
      exact ⟨q', atBrace, turn.trans stop⟩
  | @cons text w₁ w₂ rest m ms clause space₁ space₂ clauses ih =>
    obtain ⟨fuel, rfl⟩ : ∃ k, fuel = k + 1 := ⟨fuel - 1, by omega⟩
    have atClause : p.rest = w ++ (text ++ (w₁ ++ 0x2C :: (w₂ ++ (rest ++ (trailer ++
        (w₃ ++ 0x7D :: tail)))))) := by
      simpa only [List.append_assoc, List.cons_append] using unread
    obtain ⟨q, atComma, same, turn⟩ := parseMatchers_turn fuel acc space (dots ▸ clause) space₁
      (by decide) atClause
    rw [if_pos rfl] at turn
    have behind : (q.advance 1).rest = w₂ ++ (rest ++ (trailer ++ (w₃ ++ 0x7D :: tail))) := by
      rw [Parser.rest_advance, atComma]
      rfl
    have dots' : (q.advance 1).allowDots = allowDots := same.trans dots
    obtain ⟨q', atBrace, more⟩ := ih fuel (acc ++ [m]) dots' space₂ (by simpa using enough) behind
    exact ⟨q', atBrace, by rw [turn, more, List.append_assoc, List.singleton_append]⟩

private theorem length_clauses {allowDots : Bool} {body : GoString} {ms : List Matcher}
    (clauses : Clauses R allowDots body ms) : ms.length ≤ body.length := by
  induction clauses with
  | last clause =>
    obtain ⟨c, u, start, -⟩ := clause_solid clause []
    rw [List.append_nil] at start
    simp [start]
  | cons clause _ _ _ ih =>
    simp only [List.length_append, List.length_cons]
    omega

theorem parseWith_of_selectorText {input : GoString} {allowDots : Bool} {ms : List Matcher}
    (text : SelectorText R allowDots input ms) : parseWith R input allowDots = .ok ⟨ms⟩ := by
  cases text with
  | @mk w₁ w₂ w₃ w₄ body trailer ms before opened clauses trailing closing after =>
    set input := w₁ ++ 0x7B :: (w₂ ++ (body ++ (trailer ++ (w₃ ++ 0x7D :: w₄)))) with input_def
    have atStart : (Parser.mk input 0 allowDots).rest =
        w₁ ++ 0x7B :: (w₂ ++ (body ++ (trailer ++ (w₃ ++ 0x7D :: w₄)))) := rfl
    obtain ⟨skip, atBrace⟩ := skipSpace_complete before atStart (by decide)
    have dots : ((Parser.mk input 0 allowDots).skipSpace.advance 1).allowDots = allowDots := by
      rw [skip]
      rfl
    have behind : ((Parser.mk input 0 allowDots).skipSpace.advance 1).rest =
        w₂ ++ (body ++ (trailer ++ (w₃ ++ 0x7D :: w₄))) := by
      rw [Parser.rest_advance, atBrace]
      rfl
    have enough : ms.length < input.length + 1 := by
      have inside := length_clauses clauses
      simp only [input_def, List.length_append, List.length_cons]
      omega
    obtain ⟨q, atClose, loop⟩ := parseMatchers_complete (input.length + 1) [] dots clauses opened
      trailing closing enough behind
    have ended : (q.advance 1).skipSpace.rest = [] := by
      refine skipSpace_all after ?_
      rw [Parser.rest_advance, atClose]
      rfl
    have some : ms ≠ [] := by
      cases clauses <;> exact List.cons_ne_nil _ _
    rw [parseWith, Parser.consume_of_rest atBrace, if_pos rfl]
    dsimp only
    rw [loop]
    dsimp only [bind, Except.bind]
    rw [Parser.skipSpace_of_rest atClose (by decide), Parser.consume_of_rest atClose, if_pos rfl]
    dsimp only
    rw [Parser.eof_of_rest_nil ended, if_neg (by simp), List.nil_append, if_neg some]

theorem parseWith_eq_ok_iff (input : GoString) (allowDots : Bool) (ms : List Matcher) :
    parseWith R input allowDots = .ok ⟨ms⟩ ↔ SelectorText R allowDots input ms :=
  ⟨selectorText_of_parseWith, parseWith_of_selectorText⟩

theorem parseWith_equality {allowDots : Bool} {c : UInt8} {t body value : GoString}
    (start : nameStart c = true) (part : ∀ b ∈ t, namePart allowDots b = true)
    (escaped : Escaped body) (unquoted : R.unquote ([0x22] ++ body ++ [0x22]) = some value) :
    parseWith R (0x7B :: (c :: t ++ 0x3D :: ([0x22] ++ body ++ [0x22, 0x7D]))) allowDots =
      .ok ⟨[⟨c :: t, .eq, value⟩]⟩ := by
  have none : Space [] := fun _ member => absurd member List.not_mem_nil
  have clause : Clause R allowDots (c :: t ++ ([] ++ (opText .eq ++ ([] ++ (0x22 :: (body ++
      [0x22])))))) ⟨c :: t, .eq, value⟩ :=
    .mk (.mk start part) none none (.quoted escaped unquoted) nofun
  have form := SelectorText.mk none none (.last clause) .none none none
  refine parseWith_of_selectorText (Eq.mp ?_ form)
  simp only [opText, List.nil_append, List.cons_append, List.append_assoc]

end Complete

end SignalAgent.Selectors.SelectorGrammar

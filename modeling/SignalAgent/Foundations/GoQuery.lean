/- MID: SignalAgent/Foundations/GoQuery
   layer: library
   source: none
   digest: Query strings: escaping, encoding pairs, and reading them back. -/

import SignalAgent.Foundations.GoStrings

set_option autoImplicit false
set_option relaxedAutoImplicit false

namespace SignalAgent.Foundations.GoQuery

open GoText GoStrings

/-- The bytes a query component shows as they are. -/
def unreserved (b : UInt8) : Bool :=
  (0x61 ≤ b && b ≤ 0x7A) || (0x41 ≤ b && b ≤ 0x5A) || (0x30 ≤ b && b ≤ 0x39) ||
    b == 0x2D || b == 0x5F || b == 0x2E || b == 0x7E

/-- A digit of a percent escape, in upper case. -/
def escapeDigit (n : Nat) : UInt8 := if n < 10 then UInt8.ofNat (48 + n) else UInt8.ofNat (55 + n)

def escapeByte (b : UInt8) : GoString :=
  if unreserved b then [b]
  else if b = 0x20 then [0x2B]
  else [0x25, escapeDigit (b.toNat / 16), escapeDigit (b.toNat % 16)]

/-- `url.QueryEscape`. -/
def queryEscape (s : GoString) : GoString := s.flatMap escapeByte

/-- `url.QueryUnescape`; a percent sign without two digits is an error. -/
def queryUnescape : GoString → Option GoString
  | [] => some []
  | 0x25 :: hi :: lo :: rest => do
    let h ← fromHexChar hi
    let l ← fromHexChar lo
    let tail ← queryUnescape rest
    return UInt8.ofNat (h * 16 + l) :: tail
  | b :: rest => do
    let tail ← queryUnescape rest
    if b = 0x25 then none else return (if b = 0x2B then 0x20 else b) :: tail

/-- One pair as `url.Values.Encode` writes it. -/
def encodePair (pair : GoString × GoString) : GoString :=
  queryEscape pair.1 ++ 0x3D :: queryEscape pair.2

/-- `url.Values.Encode` of pairs that are already in the order of their keys. -/
def encode (pairs : List (GoString × GoString)) : GoString := join (pairs.map encodePair) [0x26]

/-- One pair as `url.ParseQuery` reads it; a semicolon is an error. -/
def parsePair (text : GoString) : Option (GoString × GoString) := do
  if 0x3B ∈ text then none
  else
    let (key, value) := (cut text 0x3D).getD (text, [])
    return (← queryUnescape key, ← queryUnescape value)

/-- `url.ParseQuery`, keeping the pairs in the order they stand in; an empty piece is skipped. -/
def parseQueryFrom : Nat → GoString → Option (List (GoString × GoString))
  | 0, _ => some []
  | n + 1, query =>
    if query = [] then some []
    else
      let (piece, rest) := (cut query 0x26).getD (query, [])
      if piece = [] then parseQueryFrom n rest
      else do
        let pair ← parsePair piece
        let pairs ← parseQueryFrom n rest
        return pair :: pairs

def parseQuery (query : GoString) : Option (List (GoString × GoString)) :=
  parseQueryFrom query.length query

private theorem fromHexChar_escapeDigit : ∀ n < 16, fromHexChar (escapeDigit n) = some n := by
  decide

private theorem escapeDigit_plain : ∀ n < 16,
    escapeDigit n ≠ 0x26 ∧ escapeDigit n ≠ 0x3D ∧ escapeDigit n ≠ 0x3B := by
  decide

private theorem unreserved_plain : ∀ b : UInt8, unreserved b = true →
    b ≠ 0x25 ∧ b ≠ 0x2B ∧ b ≠ 0x26 ∧ b ≠ 0x3D ∧ b ≠ 0x3B := by
  intro b
  simp only [unreserved, Bool.or_eq_true, Bool.and_eq_true, decide_eq_true_eq, beq_iff_eq]
  intro shown
  refine ⟨?_, ?_, ?_, ?_, ?_⟩ <;> rintro rfl <;> revert shown <;> decide

theorem mem_queryEscape {s : GoString} {c : UInt8} (member : c ∈ queryEscape s) :
    c ≠ 0x26 ∧ c ≠ 0x3D ∧ c ≠ 0x3B := by
  obtain ⟨b, -, shown⟩ := List.mem_flatMap.mp member
  unfold escapeByte at shown
  split at shown
  · rename_i plain
    obtain rfl := List.mem_singleton.mp shown
    exact (unreserved_plain c plain).2.2
  · split at shown
    · obtain rfl := List.mem_singleton.mp shown
      decide
    · have bound := b.toNat_lt
      rcases List.mem_cons.mp shown with rfl | shown
      · decide
      · rcases List.mem_cons.mp shown with rfl | shown
        · exact escapeDigit_plain _ (by omega)
        · rw [List.mem_singleton.mp shown]
          exact escapeDigit_plain _ (by omega)

private theorem queryUnescape_cons {b : UInt8} (rest : GoString) (plain : b ≠ 0x25) :
    queryUnescape (b :: rest) =
      (queryUnescape rest).map (fun tail => (if b = 0x2B then 0x20 else b) :: tail) := by
  have unfolded : queryUnescape (b :: rest) = (queryUnescape rest).bind (fun tail =>
      if b = 0x25 then none else some ((if b = 0x2B then 0x20 else b) :: tail)) := by
    rw [queryUnescape]
    · rfl
    · rintro hi lo tail rfl
      exact absurd rfl plain
  rw [unfolded]
  cases queryUnescape rest with
  | none => rfl
  | some tail => exact if_neg plain

theorem queryUnescape_queryEscape (s : GoString) : queryUnescape (queryEscape s) = some s := by
  induction s with
  | nil => rfl
  | cons b s ih =>
    have split : queryEscape (b :: s) = escapeByte b ++ queryEscape s := List.flatMap_cons
    rw [split, escapeByte]
    split
    · rename_i plain
      obtain ⟨noPercent, noPlus, -⟩ := unreserved_plain b plain
      rw [List.singleton_append, queryUnescape_cons _ noPercent, ih, if_neg noPlus]
      rfl
    · split
      · rename_i blank
        subst blank
        rw [List.singleton_append, queryUnescape_cons _ (by decide), ih]
        rfl
      · have bound := b.toNat_lt
        have high := fromHexChar_escapeDigit (b.toNat / 16) (by omega)
        have low := fromHexChar_escapeDigit (b.toNat % 16) (by omega)
        have joined : b.toNat / 16 * 16 + b.toNat % 16 = b.toNat := by omega
        simp only [List.cons_append, List.nil_append, queryUnescape, high, low, ih,
          Option.bind_eq_bind, Option.bind_some, joined, UInt8.ofNat_toNat, pure]

theorem parsePair_encodePair (pair : GoString × GoString) :
    parsePair (encodePair pair) = some pair := by
  have noSemicolon : (0x3B : UInt8) ∉ encodePair pair := by
    intro member
    rcases List.mem_append.mp member with key | value
    · exact (mem_queryEscape key).2.2 rfl
    · rcases List.mem_cons.mp value with equals | value
      · cases equals
      · exact (mem_queryEscape value).2.2 rfl
  have noEquals : (0x3D : UInt8) ∉ queryEscape pair.1 :=
    fun member => (mem_queryEscape member).2.1 rfl
  unfold parsePair
  rw [if_neg noSemicolon, encodePair, cut_append noEquals]
  simp only [Option.getD_some, queryUnescape_queryEscape, Option.bind_eq_bind, Option.bind_some,
    pure]

private theorem encodePair_plain (pair : GoString × GoString) :
    (0x26 : UInt8) ∉ encodePair pair := by
  intro member
  rcases List.mem_append.mp member with key | value
  · exact (mem_queryEscape key).1 rfl
  · rcases List.mem_cons.mp value with equals | value
    · cases equals
    · exact (mem_queryEscape value).1 rfl

private theorem encodePair_ne_nil (pair : GoString × GoString) : encodePair pair ≠ [] :=
  List.append_ne_nil_of_right_ne_nil _ (List.cons_ne_nil _ _)

private theorem cut_plain {s : GoString} {separator : UInt8} (free : separator ∉ s) :
    cut s separator = none := if_neg free

private theorem encode_singleton (pair : GoString × GoString) :
    encode [pair] = encodePair pair := by
  simp [encode, join, List.intercalate]

private theorem encode_cons (pair next : GoString × GoString)
    (pairs : List (GoString × GoString)) :
    encode (pair :: next :: pairs) = encodePair pair ++ 0x26 :: encode (next :: pairs) := by
  simp [encode, join, List.intercalate]

private theorem parseQueryFrom_encode (pairs : List (GoString × GoString)) (n : Nat)
    (enough : pairs.length ≤ n) : parseQueryFrom n (encode pairs) = some pairs := by
  induction pairs generalizing n with
  | nil =>
    cases n with
    | zero => rfl
    | succ n => rfl
  | cons pair pairs ih =>
    obtain ⟨n, rfl⟩ : ∃ m, n = m + 1 := ⟨n - 1, by simp at enough; omega⟩
    have fuel : pairs.length ≤ n := by simpa using enough
    have pieces : (cut (encode (pair :: pairs)) 0x26).getD (encode (pair :: pairs), []) =
        (encodePair pair, encode pairs) := by
      cases pairs with
      | nil =>
        rw [encode_singleton, cut_plain (encodePair_plain pair)]
        rfl
      | cons next pairs =>
        rw [encode_cons, cut_append (encodePair_plain pair)]
        rfl
    have some_ : encode (pair :: pairs) ≠ [] := by
      intro empty
      rw [empty] at pieces
      exact encodePair_ne_nil pair (Prod.mk.inj pieces).1.symm
    rw [parseQueryFrom, if_neg some_]
    simp only [pieces, if_neg (encodePair_ne_nil pair), parsePair_encodePair, ih n fuel,
      Option.bind_eq_bind, Option.bind_some, pure]

private theorem length_le_encode (pairs : List (GoString × GoString)) :
    pairs.length ≤ (encode pairs).length := by
  induction pairs with
  | nil => exact Nat.zero_le _
  | cons pair pairs ih =>
    have one := List.length_pos_of_ne_nil (encodePair_ne_nil pair)
    cases pairs with
    | nil =>
      rw [encode_singleton]
      exact one
    | cons next pairs =>
      rw [encode_cons]
      simp only [List.length_append, List.length_cons] at ih ⊢
      omega

theorem parseQuery_encode (pairs : List (GoString × GoString)) :
    parseQuery (encode pairs) = some pairs :=
  parseQueryFrom_encode pairs _ (length_le_encode pairs)

end SignalAgent.Foundations.GoQuery

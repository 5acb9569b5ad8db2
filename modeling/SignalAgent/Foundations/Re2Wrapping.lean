/- MID: SignalAgent/Foundations/Re2Wrapping
   layer: library
   source: none
   digest: A text written into an anchored group parses to its own expression between the two
     anchors, unless a parenthesis of the text closes the group. -/

import SignalAgent.Foundations.Re2Syntax

set_option autoImplicit false
set_option relaxedAutoImplicit false

namespace SignalAgent.Foundations.Re2Wrapping

open GoText Readers Reader Re2Syntax

/-- What stands behind the wrapped text. -/
abbrev closing : GoString := lit ")$"

section Locality

variable {T : Tables}

private theorem closing_rune : Local closing rune := local_rune (by decide)

private theorem local_hexEscape : Local closing hexEscape := by
  refine closing_rune.bind fun c => .ite ?_ ?_
  · exact (local_run _).bind fun _ => (local_byte _).bind fun _ => .ite .fail (.pure _)
  · refine closing_rune.bind fun d => ?_
    split
    · exact .pure _
    · exact .fail

private theorem local_escapeFrom (c : Nat) : Local closing (escapeFrom c) := by
  refine .ite ?_ (.ite ?_ (.ite local_hexEscape ?_))
  · exact (local_byte _).bind fun _ => (local_optional _).bind fun _ => .pure _
  · refine (local_optional _).bind fun second => ?_
    cases second with
    | none => exact .pure _
    | some _ => exact (local_optional _).bind fun _ => .pure _
  · split
    · exact .pure _
    · exact .ite (.pure _) .fail

private theorem local_escape : Local closing escape := closing_rune.bind local_escapeFrom

private theorem consumes_escape : Consumes escape :=
  consumes_rune.bind fun c => (local_escapeFrom c).shrinks

private theorem local_className (c : Nat) : Local closing (className c) :=
  .ite ((local_run _).bind fun _ => (local_byte _).bind fun _ => .pure _) (.pure _)

private theorem local_unicodeClass (negated : Bool) : Local closing (unicodeClass T negated) := by
  refine closing_rune.bind fun c => (local_className c).bind fun name => ?_
  split
  · exact .pure _
  · exact .fail

private theorem local_letterClass (c : UInt8) : Local closing (letterClass T c) := by
  refine .ite (local_unicodeClass _) (.ite (local_unicodeClass _) ?_)
  split
  · exact .pure _
  · exact .fail

private theorem consumes_classChar : Consumes classChar := by
  refine .after (shrinks_optional _) fun found => ?_
  cases found with
  | none => exact consumes_rune
  | some _ => exact consumes_escape

private theorem local_classChar : Local closing classChar := by
  refine (local_optional _).bind fun found => ?_
  cases found with
  | none => exact closing_rune
  | some _ => exact local_escape

private theorem local_rangeChar : Local closing (some <$> classChar) :=
  local_classChar.bind fun _ => .pure _

private theorem consumes_rangeChar : Consumes (some <$> classChar) :=
  consumes_classChar.bind fun _ => shrinks_pure _

private theorem shrinks_rangeEnd : Shrinks rangeEnd := by
  intro s a r result
  match s with
  | [] =>
    cases result
    exact List.suffix_rfl
  | [c] =>
    cases result
    exact List.suffix_rfl
  | c :: d :: t =>
    rw [rangeEnd] at result
    split at result
    · exact (local_rangeChar.shrinks _ _ _ result).trans (List.suffix_cons _ _)
    · cases result
      exact List.suffix_rfl

private theorem local_rangeEnd : Local closing rangeEnd where
  shrinks := shrinks_rangeEnd
  stays := by
    intro t a r result
    match t with
    | [] =>
      cases result
      exact .inl ⟨[], rfl, rfl⟩
    | [c] =>
      change (if c = ascii '-' ∧ ascii ')' ≠ ascii ']' then _ else _) = _ at result
      split at result
      · -- The hyphen is followed by the parenthesis of the tail, which the range then takes.
        exact .inr (consumes_rangeChar _ _ _ result).2
      · cases result
        exact .inl ⟨[c], rfl, rfl⟩
    | c :: d :: t =>
      rw [List.cons_append, List.cons_append, rangeEnd] at result
      split at result <;> rename_i hyphen
      · rw [rangeEnd, if_pos hyphen]
        exact local_rangeChar.stays (d :: t) _ _ result
      · cases result
        exact .inl ⟨c :: d :: t, rfl, by rw [rangeEnd, if_neg hyphen]⟩

private theorem local_classRange (lo : Nat) : Local closing (classRange T lo) := by
  refine local_rangeEnd.bind fun hi => ?_
  cases hi with
  | none => exact .pure _
  | some hi => exact .ite .fail (.pure _)

private theorem namedClass_shrinks_to {s r : GoString} {found : Option RuneClass}
    (result : namedClass T s = some (found, r)) :
    r <:+ s ∧ (found.isSome → r.length < s.length) := by
  match s with
  | [] =>
    cases result
    exact ⟨List.suffix_rfl, nofun⟩
  | [c] =>
    cases result
    exact ⟨List.suffix_rfl, nofun⟩
  | c :: d :: t =>
    rw [namedClass] at result
    split at result
    · split at result
      · cases result
        exact ⟨List.suffix_rfl, nofun⟩
      · rename_i name rest cut
        obtain ⟨runes, -, same⟩ := Option.map_eq_some_iff.mp result
        cases same
        have inner := suffix_of_cutPair cut
        refine ⟨inner.1.trans ⟨[c, d], rfl⟩, fun _ => ?_⟩
        simp only [List.length_cons]
        omega
    · cases result
      exact ⟨List.suffix_rfl, nofun⟩

private theorem cutPair_closing {b : UInt8} (a : UInt8) (other : ascii ')' ≠ b)
    (other' : ascii '$' ≠ b) (t : GoString) :
    cutPair a b (t ++ closing) =
      (cutPair a b t).map fun parts => (parts.1, parts.2 ++ closing) := by
  refine cutPair_append ?_ other t
  have apart : ¬ (ascii ')' = a ∧ ascii '$' = b) := fun both => other' both.2
  change (if ascii ')' = a ∧ ascii '$' = b then _ else _) = _
  rw [if_neg apart]
  rfl

private theorem local_namedClass : Local closing (namedClass T) where
  shrinks := fun _ _ _ result => (namedClass_shrinks_to result).1
  stays := by
    intro t a r result
    match t with
    | [] =>
      cases result
      exact .inl ⟨[], rfl, rfl⟩
    | [c] =>
      change (if c = ascii '[' ∧ ascii ')' = ascii ':' then _ else _) = _ at result
      rw [if_neg fun both => absurd both.2 (by decide)] at result
      cases result
      exact .inl ⟨[c], rfl, rfl⟩
    | c :: d :: t =>
      rw [List.cons_append, List.cons_append, namedClass] at result
      rw [namedClass]
      split at result <;> rename_i bracket
      · rw [if_pos bracket]
        rw [cutPair_closing _ (by decide) (by decide)] at result
        cases cut : cutPair (ascii ':') (ascii ']') t with
        | none =>
          rw [cut] at result
          cases result
          exact .inl ⟨c :: d :: t, rfl, rfl⟩
        | some parts =>
          rw [cut] at result
          obtain ⟨runes, named, same⟩ := Option.map_eq_some_iff.mp result
          cases same
          exact .inl ⟨parts.2, rfl, by dsimp only; rw [named]; rfl⟩
      · rw [if_neg bracket]
        cases result
        exact .inl ⟨c :: d :: t, rfl, rfl⟩

private theorem local_classEscape : Local closing (classEscape T) := by
  refine (local_optional _).bind fun letter => ?_
  cases letter with
  | none => exact local_escape.bind local_classRange
  | some c => exact local_letterClass c

private theorem local_classItem : Local closing (classItem T) := by
  refine local_namedClass.bind fun named => ?_
  cases named with
  | some runes => exact .pure _
  | none =>
    refine (local_optional _).bind fun backslash => ?_
    cases backslash with
    | none => exact closing_rune.bind local_classRange
    | some _ => exact local_classEscape

private theorem consumes_classItem : Consumes (classItem T) := by
  intro s a r result
  have left := local_classItem.shrinks _ _ _ result
  refine ⟨left, ?_⟩
  obtain ⟨named, middle, read, rest⟩ := bind_eq_some result
  have front := namedClass_shrinks_to read
  cases named with
  | some runes =>
    cases rest
    exact front.2 rfl
  | none =>
    obtain ⟨backslash, after, read', rest'⟩ := bind_eq_some rest
    have within := front.1.length_le
    have within' := (shrinks_optional _ _ _ _ read').length_le
    cases backslash with
    | none =>
      have taken := (consumes_rune.bind fun lo => (local_classRange lo).shrinks) _ _ _ rest'
      have := taken.2
      omega
    | some _ =>
      have taken := length_lt_of_optional read'
      have := (local_classEscape.shrinks _ _ _ rest').length_le
      omega

private theorem local_charClass : Local closing (charClass T) :=
  (local_optional _).bind fun _ => (local_items consumes_classItem local_classItem).bind fun _ =>
    .pure _

private theorem exact_int : Exact closing int :=
  (exact_run (by decide)).bind fun _ => .ite .fail (.pure _)

private theorem exact_upperCount (min : Nat) : Exact closing (upperCount min) := by
  refine (exact_optional (by decide)).bind fun comma => ?_
  cases comma with
  | none => exact (exact_byte (by decide)).bind fun _ => .pure _
  | some _ =>
    refine (exact_optional (by decide)).bind fun brace => ?_
    cases brace with
    | none => exact exact_int.bind fun _ => (exact_byte (by decide)).bind fun _ => .pure _
    | some _ => exact .pure _

private theorem exact_counts : Exact closing counts :=
  exact_int.bind fun min => (exact_upperCount min).bind fun _ => .pure _

private theorem local_repetition (min : Nat) (max : Option Nat) :
    Local closing (repetition min max) :=
  (local_optional _).bind fun _ => .ite .fail (.pure _)

-- Counts are read in full or the brace is a plain rune, so they may not depend on the tail.
private theorem local_brace : Local closing brace where
  shrinks := by
    intro s a r result
    rw [brace] at result
    split at result
    · rename_i min max rest read
      have front := exact_counts.shrinks _ _ _ read
      exact ((local_repetition min max).shrinks _ _ _ result).trans front
    · cases result
      exact List.suffix_rfl
  stays := by
    intro t a r result
    rw [brace, exact_counts.same] at result
    rw [brace]
    rcases read : counts t with _ | ⟨⟨min, max⟩, t'⟩
    · rw [read] at result
      cases result
      exact .inl ⟨t, rfl, rfl⟩
    · rw [read] at result
      exact (local_repetition min max).stays t' a r result

private theorem local_groupName : Local closing groupName :=
  (local_run _).bind fun _ => (local_byte _).bind fun _ => .ite .fail (.pure _)

private theorem local_flagGroup : Local closing flagGroup := by
  refine (local_run _).bind fun text => (local_byte _).bind fun last => ?_
  split
  · exact .fail
  · exact .ite (.pure _) (.pure _)

private theorem local_group : Local closing group := by
  refine (local_optional _).bind fun mark => ?_
  cases mark with
  | none => exact .pure _
  | some _ =>
    refine (local_optional _).bind fun named => ?_
    cases named with
    | none => exact local_flagGroup
    | some c => exact .ite ((local_byte _).bind fun _ => local_groupName) local_groupName

private theorem local_quotedText : Local closing quotedText where
  shrinks := by
    intro s a r result
    obtain ⟨runes, -, same⟩ := Option.map_eq_some_iff.mp result
    cases same
    rcases cut : cutPair (ascii '\\') (ascii 'E') s with _ | ⟨front, back⟩
    · exact List.nil_suffix
    · exact (suffix_of_cutPair cut).1
  stays := by
    intro t a r result
    rw [quotedText, cutPair_closing _ (by decide) (by decide)] at result
    rw [quotedText]
    rcases cut : cutPair (ascii '\\') (ascii 'E') t with _ | ⟨front, back⟩
    · -- The literal text runs to the end, over the tail.
      rw [cut] at result
      obtain ⟨runes, -, same⟩ := Option.map_eq_some_iff.mp result
      cases same
      exact .inr (show 0 < closing.length by decide)
    · rw [cut] at result
      obtain ⟨runes, valid, same⟩ := Option.map_eq_some_iff.mp result
      cases same
      exact .inl ⟨back, rfl, Option.map_eq_some_iff.mpr ⟨runes, valid, rfl⟩⟩

private theorem local_escapedItem : Local closing (escapedItem T) := by
  refine (local_optional _).bind fun letter => ?_
  cases letter with
  | none => exact local_escape.bind fun _ => .pure _
  | some c =>
    refine .ite (.pure _) (.ite (.pure _) (.ite (.pure _) (.ite (.pure _) (.ite .fail ?_))))
    exact .ite local_quotedText ((local_letterClass c).bind fun _ => .pure _)

private theorem local_specials : ∀ entry ∈ specials T, Local closing entry.2 := by
  simp only [specials, List.forall_mem_cons]
  refine ⟨local_group, .pure _, .pure _, .pure _, .pure _, local_charClass, local_repetition _ _,
    local_repetition _ _, local_repetition _ _, local_brace, local_escapedItem, nofun⟩

private theorem local_special {c : UInt8} {reader : Reader Item}
    (found : special T c = some reader) : Local closing reader := by
  obtain ⟨entry, first, rfl⟩ := Option.map_eq_some_iff.mp found
  exact local_specials entry (List.mem_of_find?_eq_some first)

end Locality

section Lexing

variable {T : Tables}

private theorem local_item {c : UInt8} {reader : Reader Item}
    (found : special T c = some reader) : Local closing (Token.item <$> reader) :=
  (local_special found).bind fun _ => .pure _

private theorem local_literal : Local closing ((Token.item ∘ Item.literal) <$> rune) :=
  closing_rune.bind fun _ => .pure _

private theorem consumes_literal : Consumes ((Token.item ∘ Item.literal) <$> rune) :=
  consumes_rune.bind fun _ => shrinks_pure _

theorem consumes_next : Consumes (next T) := by
  intro s a r result
  cases s with
  | nil => cases result
  | cons c t =>
    rw [next] at result
    split at result
    · cases result
      exact ⟨List.suffix_cons _ _, Nat.lt_succ_self _⟩
    · split at result
      · rename_i reader found
        have left := (local_item found).shrinks _ _ _ result
        exact ⟨left.trans (List.suffix_cons _ _), Nat.lt_succ_of_le left.length_le⟩
      · exact consumes_literal _ _ _ result

theorem local_next : Local closing (next T) where
  shrinks := consumes_next.shrinks
  stays := by
    intro t a r result
    cases t with
    | nil => exact .inr (consumes_next _ _ _ result).2
    | cons c t =>
      rw [List.cons_append, next] at result
      rw [next]
      split at result <;> rename_i close
      · rw [if_pos close]
        cases result
        exact .inl ⟨t, rfl, rfl⟩
      · rw [if_neg close]
        cases found : special T c with
        | none =>
          rw [found] at result
          exact local_literal.stays (c :: t) _ _ result
        | some reader =>
          rw [found] at result
          exact (local_item found).stays t _ _ result

private theorem lexFrom_enough {n m : Nat} {s : GoString} (enough : s.length ≤ n)
    (enough' : s.length ≤ m) : lexFrom T n s = lexFrom T m s := by
  induction n generalizing m s with
  | zero =>
    obtain rfl := List.length_eq_zero_iff.mp (Nat.le_zero.mp enough)
    cases m <;> rfl
  | succ n ih =>
    cases m with
    | zero =>
      obtain rfl := List.length_eq_zero_iff.mp (Nat.le_zero.mp enough')
      rfl
    | succ m =>
      rw [lexFrom, lexFrom]
      rcases read : next T s with _ | ⟨token, rest⟩
      · rfl
      · have shorter := (consumes_next _ _ _ read).2
        have same : lexFrom T n rest = lexFrom T m rest := ih (by omega) (by omega)
        dsimp only
        rw [same]

theorem lex_of_next {s rest : GoString} {token : Token} (read : next T s = some (token, rest)) :
    lex T s = (token :: (lex T rest).1, (lex T rest).2) := by
  have shorter := (consumes_next _ _ _ read).2
  have more : lex T s = lexFrom T (s.length + 1) s := lexFrom_enough (Nat.le_refl _) (Nat.le_succ _)
  have same : lexFrom T s.length rest = lex T rest :=
    lexFrom_enough (Nat.le_of_lt shorter) (Nat.le_refl _)
  rw [more, lexFrom, read]
  dsimp only
  rw [same]

theorem lex_of_next_none {s : GoString} (refused : next T s = none) : lex T s = ([], s) := by
  have more : lex T s = lexFrom T (s.length + 1) s := lexFrom_enough (Nat.le_refl _) (Nat.le_succ _)
  rw [more, lexFrom, refused]

private theorem lex_closing : lex T closing = ([.close, .item .dollar], []) := rfl

private theorem rest_of_close {c : UInt8} {t rest : GoString}
    (read : next T (c :: t) = some (.close, rest)) : rest = t := by
  rw [next] at read
  split at read
  · cases read
    rfl
  · split at read
    · obtain ⟨item, middle, -, wrong⟩ :=
        bind_eq_some (g := fun item => pure (Token.item item)) read
      cases wrong
    · obtain ⟨r, middle, -, wrong⟩ :=
        bind_eq_some (g := fun r => pure (Token.item (.literal r))) read
      cases wrong

private theorem close_not_mem_lex {s r : GoString} (left : r <:+ s ++ closing)
    (short : r.length < closing.length) : Token.close ∉ (lex T r).1 := by
  have inTail : r <:+ closing :=
    List.suffix_of_suffix_length_le left (List.suffix_append _ _) (Nat.le_of_lt short)
  rcases List.suffix_cons_iff.mp inTail with rfl | inDollar
  · exact absurd short (Nat.lt_irrefl _)
  rcases List.suffix_cons_iff.mp inDollar with rfl | inNil
  · intro member
    cases List.mem_singleton.mp (show Token.close ∈ [Token.item .dollar] from member)
  · obtain rfl := List.suffix_nil.mp inNil
    exact List.not_mem_nil

theorem lex_append_closing {s : GoString} (whole : (lex T (s ++ closing)).2 = []) :
    (∃ tokens, lex T s = (tokens, []) ∧
      (lex T (s ++ closing)).1 = tokens ++ [.close, .item .dollar]) ∨
    ∃ front items, front <+: (lex T s).1 ∧ (lex T (s ++ closing)).1 = front ++ items ∧
      Token.close ∉ items := by
  generalize size : s.length = n
  induction n using Nat.strong_induction_on generalizing s with
  | _ n ih =>
    cases s with
    | nil => exact .inl ⟨[], rfl, congrArg Prod.fst lex_closing⟩
    | cons c t =>
      rcases read : next T (c :: t ++ closing) with _ | ⟨token, rest⟩
      · rw [lex_of_next_none read] at whole
        cases whole
      · rw [lex_of_next read] at whole ⊢
        rcases local_next.stays _ _ _ read with ⟨t', rfl, alone⟩ | short
        · rw [lex_of_next alone]
          have shorter := (consumes_next _ _ _ alone).2
          rcases ih _ (size ▸ shorter) whole rfl with ⟨tokens, same, joined⟩ | swallowed
          · refine .inl ⟨token :: tokens, by rw [same], ?_⟩
            rw [List.cons_append, ← joined]
          · obtain ⟨front, items, begins, joined, noClose⟩ := swallowed
            refine .inr ⟨token :: front, items, ?_, ?_, noClose⟩
            · exact List.cons_prefix_cons.mpr ⟨rfl, begins⟩
            · rw [List.cons_append, ← joined]
        · refine .inr ⟨[], token :: (lex T rest).1, List.nil_prefix, rfl, ?_⟩
          intro member
          rcases List.mem_cons.mp member with rfl | later
          · rw [List.cons_append] at read
            rw [rest_of_close read, List.length_append] at short
            omega
          · exact close_not_mem_lex (consumes_next _ _ _ read).1 short later

end Lexing

section Nesting

variable {T : Tables} {base : Level × Flags} {st st' : State}

/-- The state with one more group around everything. -/
def under (base : Level × Flags) (st : State) : State := { st with outer := st.outer ++ [base] }

private theorem under_pushAll (base : Level × Flags) (runes : List Nat) (re : State → Nat → Re)
    (same : ∀ st r, re (under base st) r = re st r) (st : State) :
    runes.foldl (fun st r => st.push (re st r)) (under base st) =
      under base (runes.foldl (fun st r => st.push (re st r)) st) := by
  induction runes generalizing st with
  | nil => rfl
  | cons r runes ih =>
    rw [List.foldl_cons, List.foldl_cons, same]
    exact ih (st.push (re st r))

private theorem repeatLast_under (min : Nat) (max : Option Nat) :
    (under base st).repeatLast min max = (st.repeatLast min max).map (under base) := by
  obtain ⟨⟨branches, pieces⟩, outer, flags, repeated⟩ := st
  cases repeated with
  | true => rfl
  | false =>
    cases pieces with
    | nil => rfl
    | cons re rest =>
      simp only [State.repeatLast, under]
      split <;> rfl

private theorem item_under (item : Item) :
    (under base st).item T item = (st.item T item).map (under base) := by
  cases item with
  | quoted runes =>
    exact congrArg some (under_pushAll base runes
      (fun st r => .set (folded T (inRanges [(r, r)]) st.flags.foldCase)) (fun _ _ => rfl)
      { st with repeated := false })
  | repetition min max => exact repeatLast_under min max
  | _ => rfl

private theorem close_under {inner : Level × Flags} {outer : List (Level × Flags)}
    (nested : st.outer = inner :: outer) :
    (under base st).close = st.close.map (under base) := by
  obtain ⟨level, _, flags, repeated⟩ := st
  cases nested
  rfl

private theorem outer_pushAll (runes : List Nat) (re : State → Nat → Re) (st : State) :
    (runes.foldl (fun st r => st.push (re st r)) st).outer = st.outer := by
  induction runes generalizing st with
  | nil => rfl
  | cons r runes ih => exact ih (st.push (re st r))

private theorem outer_repeatLast {min : Nat} {max : Option Nat}
    (result : st.repeatLast min max = some st') : st'.outer = st.outer := by
  unfold State.repeatLast at result
  split at result
  · dsimp only at result
    split at result <;> cases result
    rfl
  · cases result

private theorem outer_item {item : Item} (result : st.item T item = some st') :
    st'.outer.length = st.outer.length + item.opens := by
  cases item with
  | quoted runes =>
    cases result
    rw [outer_pushAll]
    rfl
  | repetition min max =>
    rw [outer_repeatLast result]
    rfl
  | _ =>
    cases result
    rfl

private theorem outer_close (result : st.close = some st') :
    st.outer.length = st'.outer.length + 1 := by
  unfold State.close at result
  split at result <;> cases result
  rename_i stack
  rw [stack]
  rfl

private theorem run_cons (token : Token) (rest : List Token) :
    st.run T (token :: rest) = (st.step T token).bind fun st => st.run T rest := rfl

theorem run_under (st : State) {tokens : List Token}
    (own : closesBelow st.outer.length tokens = false) :
    (under base st).run T tokens = (st.run T tokens).map (under base) := by
  induction tokens generalizing st with
  | nil => rfl
  | cons token rest ih =>
    rw [run_cons, run_cons]
    cases token with
    | item item =>
      change ((under base st).item T item).bind _ = _
      rw [item_under]
      change _ = ((st.item T item).bind _).map _
      cases result : st.item T item with
      | none => rfl
      | some st' =>
        refine ih st' ?_
        rw [outer_item result]
        exact own
    | close =>
      cases nested : st.outer with
      | nil =>
        rw [nested] at own
        cases own
      | cons inner outer =>
        change (under base st).close.bind _ = _
        rw [close_under nested]
        change _ = (st.close.bind _).map _
        cases result : st.close with
        | none => rfl
        | some st' =>
          refine ih st' ?_
          rw [outer_close result] at own
          exact own

theorem run_of_closesBelow (st : State) {tokens : List Token}
    (other : closesBelow st.outer.length tokens = true) : st.run T tokens = none := by
  induction tokens generalizing st with
  | nil => cases other
  | cons token rest ih =>
    rw [run_cons]
    cases token with
    | item item =>
      change (st.item T item).bind _ = _
      cases result : st.item T item with
      | none => rfl
      | some st' =>
        refine ih st' ?_
        rw [outer_item result]
        exact other
    | close =>
      change st.close.bind _ = _
      cases result : st.close with
      | none => rfl
      | some st' =>
        refine ih st' ?_
        rw [outer_close result] at other
        exact other

private theorem closesBelow_append_left {depth : Nat} {front back : List Token}
    (own : closesBelow depth (front ++ back) = false) : closesBelow depth front = false := by
  induction front generalizing depth with
  | nil => rfl
  | cons token front ih =>
    cases token with
    | item item => exact ih own
    | close =>
      cases depth with
      | zero => cases own
      | succ depth => exact ih own

private theorem closesBelow_append {depth : Nat} {front back : List Token}
    (own : closesBelow depth front = false) (noClose : Token.close ∉ back) :
    closesBelow depth (front ++ back) = false := by
  induction front generalizing depth with
  | nil =>
    induction back generalizing depth with
    | nil => rfl
    | cons token back ih =>
      cases token with
      | item item => exact ih (fun member => noClose (List.mem_cons_of_mem _ member)) own
      | close => exact absurd List.mem_cons_self noClose
  | cons token front ih =>
    cases token with
    | item item => exact ih own
    | close =>
      cases depth with
      | zero => cases own
      | succ depth => exact ih own

end Nesting

section Wrapping

variable {T : Tables} {text : GoString}

def wrap (text : GoString) : GoString := lit "^(?:" ++ text ++ closing

private theorem lex_wrap (T : Tables) (text : GoString) :
    lex T (wrap text) = (.item .caret :: .item (.group []) :: (lex T (text ++ closing)).1,
      (lex T (text ++ closing)).2) := by
  have caret : next T (wrap text) = some (.item .caret, lit "(?:" ++ (text ++ closing)) := by
    rw [wrap, List.append_assoc]
    rfl
  have opening : next T (lit "(?:" ++ (text ++ closing)) =
      some (.item (.group []), text ++ closing) := rfl
  rw [lex_of_next caret, lex_of_next opening]

private theorem parse_of_lex {tokens : List Token} (read : lex T text = (tokens, [])) :
    parse T text = (State.initial.run T tokens).bind State.result := by
  rw [parse, read]

/-- The level around the group: the first anchor has been read. -/
private def aroundGroup : Level × Flags := (⟨[], [.assert .beginText]⟩, .perl)

private theorem parse_wrap_eq (whole : (lex T (text ++ closing)).2 = []) :
    parse T (wrap text) =
      ((under aroundGroup .initial).run T (lex T (text ++ closing)).1).bind State.result := by
  have read := lex_wrap T text
  rw [whole] at read
  exact parse_of_lex read

private theorem result_under (st : State) : (under aroundGroup st).result = none := by
  obtain ⟨level, outer, flags, repeated⟩ := st
  cases outer <;> rfl

private theorem result_close_dollar (st : State) (re : Re)
    (result : ((under aroundGroup st).run T [.close, .item .dollar]).bind State.result = some re) :
    ∃ inner, st.result = some inner ∧ re = anchoredRe inner := by
  obtain ⟨level, outer, flags, repeated⟩ := st
  cases outer with
  | nil =>
    cases result
    exact ⟨level.finish, rfl, rfl⟩
  | cons inner outer =>
    cases outer <;> cases result

/-- A text that closes no group but its own and parses inside the anchors is an expression itself,
and the anchors stand around it. -/
theorem parse_of_wrap {re : Re} (wrapped : parse T (wrap text) = some re)
    (own : closesGroup T text = false) :
    ∃ inner, parse T text = some inner ∧ re = anchoredRe inner := by
  have whole : (lex T (text ++ closing)).2 = [] := by
    rw [parse, lex_wrap] at wrapped
    split at wrapped
    · rename_i tokens same
      exact (Prod.mk.inj same).2
    · cases wrapped
  rw [parse_wrap_eq whole] at wrapped
  rcases lex_append_closing whole with
    ⟨tokens, alone, joined⟩ | ⟨front, items, begins, joined, noClose⟩
  · rw [closesGroup, alone] at own
    rw [joined, State.run, List.foldlM_append] at wrapped
    change (((under aroundGroup .initial).run T tokens).bind _).bind _ = _ at wrapped
    rw [run_under .initial own] at wrapped
    rw [parse_of_lex alone]
    cases ran : State.initial.run T tokens with
    | none =>
      rw [ran] at wrapped
      cases wrapped
    | some st =>
      rw [ran] at wrapped
      exact result_close_dollar st re wrapped
  · -- A token that reads into the tail leaves the group open.
    obtain ⟨back, parts⟩ := begins
    rw [closesGroup, ← parts] at own
    have stays := closesBelow_append (closesBelow_append_left own) noClose
    rw [joined, run_under .initial stays] at wrapped
    cases ran : State.initial.run T (front ++ items) with
    | none =>
      rw [ran] at wrapped
      cases wrapped
    | some st =>
      rw [ran] at wrapped
      cases (result_under st).symm.trans wrapped

theorem closesGroup_of_parse {re : Re} (valid : parse T text = some re) :
    closesGroup T text = false := by
  rw [parse] at valid
  split at valid
  · rename_i tokens alone
    rw [closesGroup, alone]
    by_contra closes
    rw [Bool.not_eq_false] at closes
    rw [run_of_closesBelow .initial closes] at valid
    cases valid
  · cases valid

end Wrapping

end SignalAgent.Foundations.Re2Wrapping

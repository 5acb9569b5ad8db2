/- MID: SignalAgent/Foundations/Readers
   layer: library
   source: none
   digest: Readers of byte strings, and what they read when a tail stands behind the text. -/

import Mathlib.Data.List.TakeWhile
import SignalAgent.Foundations.GoRunes

set_option autoImplicit false
set_option relaxedAutoImplicit false

namespace SignalAgent.Foundations.Readers

open GoRunes GoText

/-- A reader takes a front part of a text off, or refuses the text. -/
abbrev Reader (α : Type) := StateT GoString Option α

namespace Reader

variable {α β : Type}

def fail : Reader α := fun _ => none

/-- The next byte, if it is there and accepted. -/
def optional (accepts : UInt8 → Bool) : Reader (Option UInt8) := fun s =>
  match s with
  | [] => some (none, [])
  | c :: t => if accepts c then some (some c, t) else some (none, c :: t)

/-- The next byte, which has to be accepted. -/
def byte (accepts : UInt8 → Bool) : Reader UInt8 := fun s =>
  match s with
  | [] => none
  | c :: t => if accepts c then some (c, t) else none

/-- The longest run of accepted bytes. -/
def run (accepts : UInt8 → Bool) : Reader GoString := fun s =>
  some (s.takeWhile accepts, s.dropWhile accepts)

/-- The next rune; a byte that starts no rune is refused. -/
def rune : Reader Nat := fun s =>
  match s with
  | [] => none
  | b :: t =>
    let decoded := decodeRune (b :: t)
    if decoded = (runeError, 1) then none else some (decoded.1, (b :: t).drop decoded.2)

/-- The text in front of the first place where `a` is followed by `b`, and the text behind it. -/
def cutPair (a b : UInt8) : GoString → Option (GoString × GoString)
  | [] => none
  | [_] => none
  | c :: d :: t =>
    if c = a ∧ d = b then some ([], t)
    else (cutPair a b (d :: t)).map fun parts => (c :: parts.1, parts.2)

/-- Items up to the byte `stop`, which as the first byte is an item's. -/
def itemsFrom (stop : UInt8) (item : Reader α) : Nat → Bool → Reader (List α)
  | 0, _ => fail
  | fuel + 1, first => do
    match ← optional fun c => !first && c == stop with
    | some _ => return []
    | none =>
      let a ← item
      let rest ← itemsFrom stop item fuel false
      return a :: rest

def items (stop : UInt8) (item : Reader α) : Reader (List α) := fun s =>
  itemsFrom stop item (s.length + 1) true s

theorem bind_run (f : Reader α) (g : α → Reader β) (s : GoString) :
    (f >>= g) s = (f s).bind (fun result => g result.1 result.2) := rfl

theorem bind_eq_some {f : Reader α} {g : α → Reader β} {s r : GoString} {b : β}
    (result : (f >>= g) s = some (b, r)) :
    ∃ a middle, f s = some (a, middle) ∧ g a middle = some (b, r) := by
  rw [bind_run] at result
  obtain ⟨⟨a, middle⟩, first, second⟩ := Option.bind_eq_some_iff.mp result
  exact ⟨a, middle, first, second⟩

/-- What a reader leaves is an end of what it got. -/
def Shrinks (f : Reader α) : Prop := ∀ s a r, f s = some (a, r) → r <:+ s

/-- A reader takes at least one byte. -/
def Consumes (f : Reader α) : Prop := ∀ s a r, f s = some (a, r) → r <:+ s ∧ r.length < s.length

/-- With `tail` behind the text, the reader either reads what it reads of the text alone, or it
reads into the tail. -/
structure Local (tail : GoString) (f : Reader α) : Prop where
  shrinks : Shrinks f
  stays : ∀ t a r, f (t ++ tail) = some (a, r) →
    (∃ t', r = t' ++ tail ∧ f t = some (a, t')) ∨ r.length < tail.length

/-- With `tail` behind the text, the reader reads what it reads of the text alone. -/
structure Exact (tail : GoString) (f : Reader α) : Prop where
  shrinks : Shrinks f
  same : ∀ t, f (t ++ tail) = (f t).map (fun result => (result.1, result.2 ++ tail))

variable {tail : GoString} {f : Reader α} {g : α → Reader β}

theorem Consumes.shrinks (consumes : Consumes f) : Shrinks f :=
  fun _ _ _ result => (consumes _ _ _ result).1

theorem Consumes.bind (first : Consumes f) (second : ∀ a, Shrinks (g a)) :
    Consumes (f >>= g) := by
  intro s b r result
  obtain ⟨a, middle, read, rest⟩ := bind_eq_some result
  have left := first _ _ _ read
  have later := second a _ _ _ rest
  exact ⟨later.trans left.1, Nat.lt_of_le_of_lt later.length_le left.2⟩

theorem Consumes.after (first : Shrinks f) (second : ∀ a, Consumes (g a)) :
    Consumes (f >>= g) := by
  intro s b r result
  obtain ⟨a, middle, read, rest⟩ := bind_eq_some result
  have left := first _ _ _ read
  have later := second a _ _ _ rest
  exact ⟨later.1.trans left, Nat.lt_of_lt_of_le later.2 left.length_le⟩

theorem Exact.toLocal (exactly : Exact tail f) : Local tail f where
  shrinks := exactly.shrinks
  stays := by
    intro t a r result
    rw [exactly.same] at result
    obtain ⟨⟨b, t'⟩, read, same⟩ := Option.map_eq_some_iff.mp result
    obtain ⟨rfl, rfl⟩ := Prod.mk.inj same
    exact .inl ⟨t', rfl, read⟩

theorem Local.bind (first : Local tail f) (second : ∀ a, Local tail (g a)) :
    Local tail (f >>= g) where
  shrinks := by
    intro s b r result
    obtain ⟨a, middle, read, rest⟩ := bind_eq_some result
    exact ((second a).shrinks _ _ _ rest).trans (first.shrinks _ _ _ read)
  stays := by
    intro t b r result
    obtain ⟨a, middle, read, rest⟩ := bind_eq_some result
    rcases first.stays _ _ _ read with ⟨t', rfl, read'⟩ | short
    · rcases (second a).stays _ _ _ rest with ⟨t'', rfl, rest'⟩ | short
      · refine .inl ⟨t'', rfl, ?_⟩
        rw [bind_run, read']
        exact rest'
      · exact .inr short
    · exact .inr (Nat.lt_of_le_of_lt ((second a).shrinks _ _ _ rest).length_le short)

theorem Local.ite {p : Prop} [Decidable p] {f g : Reader α} (first : Local tail f)
    (second : Local tail g) : Local tail (if p then f else g) := by
  split
  · exact first
  · exact second

theorem shrinks_pure (a : α) : Shrinks (Pure.pure a : Reader α) := by
  rintro s b r ⟨⟩
  exact List.suffix_rfl

theorem Exact.pure (a : α) : Exact tail (Pure.pure a : Reader α) where
  shrinks := shrinks_pure a
  same := fun _ => rfl

theorem Local.pure (a : α) : Local tail (Pure.pure a : Reader α) := (Exact.pure a).toLocal

theorem Exact.fail : Exact tail (fail : Reader α) where
  shrinks := nofun
  same := fun _ => rfl

theorem Local.fail : Local tail (fail : Reader α) := Exact.fail.toLocal

theorem Exact.bind (first : Exact tail f) (second : ∀ a, Exact tail (g a)) :
    Exact tail (f >>= g) where
  shrinks := (Local.bind first.toLocal fun a => (second a).toLocal).shrinks
  same := by
    intro t
    rw [bind_run, bind_run, first.same]
    cases f t with
    | none => rfl
    | some result => exact (second result.1).same result.2

theorem Exact.ite {p : Prop} [Decidable p] {f g : Reader α} (first : Exact tail f)
    (second : Exact tail g) : Exact tail (if p then f else g) := by
  split
  · exact first
  · exact second

theorem shrinks_optional (accepts : UInt8 → Bool) : Shrinks (optional accepts) := by
  intro s a r result
  cases s with
  | nil =>
    cases result
    exact List.suffix_rfl
  | cons c t =>
    rw [optional] at result
    split at result <;> cases result
    · exact List.suffix_cons _ _
    · exact List.suffix_rfl

theorem local_optional (accepts : UInt8 → Bool) : Local tail (optional accepts) where
  shrinks := shrinks_optional accepts
  stays := by
    intro t a r result
    cases t with
    | nil =>
      cases tail with
      | nil => exact .inl ⟨r, (List.append_nil r).symm, result⟩
      | cons c u =>
        rw [List.nil_append, optional] at result
        split at result <;> cases result
        · exact .inr (Nat.lt_succ_self _)
        · exact .inl ⟨[], rfl, rfl⟩
    | cons c t =>
      rw [List.cons_append, optional] at result
      split at result <;> rename_i test <;> cases result
      · exact .inl ⟨t, rfl, by rw [optional, if_pos test]⟩
      · exact .inl ⟨c :: t, rfl, by rw [optional, if_neg test]⟩

theorem length_lt_of_optional {accepts : UInt8 → Bool} {s r : GoString} {c : UInt8}
    (result : optional accepts s = some (some c, r)) : r.length < s.length := by
  cases s with
  | nil => cases result
  | cons d t =>
    rw [optional] at result
    split at result <;> cases result
    exact Nat.lt_succ_self _

theorem consumes_byte (accepts : UInt8 → Bool) : Consumes (byte accepts) := by
  intro s a r result
  cases s with
  | nil => cases result
  | cons c t =>
    rw [byte] at result
    split at result <;> cases result
    exact ⟨List.suffix_cons _ _, Nat.lt_succ_self _⟩

theorem local_byte (accepts : UInt8 → Bool) : Local tail (byte accepts) where
  shrinks := (consumes_byte accepts).shrinks
  stays := by
    intro t a r result
    cases t with
    | nil => exact .inr (consumes_byte accepts _ _ _ result).2
    | cons c t =>
      rw [List.cons_append, byte] at result
      split at result <;> rename_i test <;> cases result
      exact .inl ⟨t, rfl, by rw [byte, if_pos test]⟩

private theorem shrinks_run (accepts : UInt8 → Bool) : Shrinks (run accepts) := by
  rintro s a r ⟨⟩
  exact List.dropWhile_suffix accepts

theorem local_run (accepts : UInt8 → Bool) : Local tail (run accepts) where
  shrinks := shrinks_run accepts
  stays := by
    intro t
    induction t with
    | nil =>
      rintro a r ⟨⟩
      rw [List.nil_append]
      cases tail with
      | nil => exact .inl ⟨[], rfl, rfl⟩
      | cons c u =>
        by_cases test : accepts c = true
        · rw [List.dropWhile_cons_of_pos test]
          exact .inr (Nat.lt_succ_of_le (List.dropWhile_suffix accepts).length_le)
        · rw [List.takeWhile_cons_of_neg test, List.dropWhile_cons_of_neg test]
          exact .inl ⟨[], rfl, rfl⟩
    | cons c t ih =>
      rintro a r ⟨⟩
      rw [List.cons_append]
      by_cases test : accepts c = true
      · rw [List.takeWhile_cons_of_pos test, List.dropWhile_cons_of_pos test]
        rcases ih _ _ rfl with ⟨t', rest, read⟩ | short
        · obtain ⟨taken, left⟩ := Prod.mk.inj (Option.some.inj read)
          refine .inl ⟨t', rest, ?_⟩
          rw [run, List.takeWhile_cons_of_pos test, List.dropWhile_cons_of_pos test, taken, left]
        · exact .inr short
      · rw [List.takeWhile_cons_of_neg test, List.dropWhile_cons_of_neg test]
        refine .inl ⟨c :: t, rfl, ?_⟩
        rw [run, List.takeWhile_cons_of_neg test, List.dropWhile_cons_of_neg test]

private theorem ascii_before_second {c : UInt8} (ascii : c < 0x80) (b : UInt8) :
    c < (secondByteRange b).1 := by
  have low : ∀ limit : UInt8, 0x80 ≤ limit → c < limit :=
    fun _ above => UInt8.lt_of_lt_of_le ascii above
  unfold secondByteRange
  split_ifs <;> exact low _ (by decide)

theorem decodeRune_append {b c : UInt8} {t u : GoString} (ascii : c < 0x80) :
    decodeRune (b :: t ++ c :: u) = decodeRune (b :: t) := by
  -- A tail that starts with an ASCII byte completes no rune.
  have second := ascii_before_second ascii b
  have later : continuationByte c = false := by
    rw [continuationByte, Bool.and_eq_false_iff]
    exact .inl (decide_eq_false (UInt8.not_le.mpr ascii))
  rcases t with _ | ⟨b1, _ | ⟨b2, _ | ⟨b3, t⟩⟩⟩
  · simp [decodeRune, second]
  · simp [decodeRune, later]
  · simp [decodeRune, later]
  · rfl

private theorem rune_cons (b : UInt8) (t : GoString) :
    rune (b :: t) = if decodeRune (b :: t) = (runeError, 1) then none
      else some ((decodeRune (b :: t)).1, (b :: t).drop (decodeRune (b :: t)).2) := rfl

private theorem width_bounds (b : UInt8) (t : GoString) :
    0 < (decodeRune (b :: t)).2 ∧ (decodeRune (b :: t)).2 ≤ (b :: t).length := by
  rcases decodeRune_cases b t with error | ⟨r, bytes, rest, sequence, whole, decoded⟩
  · rw [error]
    exact ⟨Nat.one_pos, Nat.succ_le_succ (Nat.zero_le _)⟩
  · rw [decoded, whole, List.length_append]
    refine ⟨?_, Nat.le_add_right _ _⟩
    cases sequence <;> exact Nat.succ_pos _

theorem consumes_rune : Consumes rune := by
  intro s a r result
  cases s with
  | nil => cases result
  | cons b t =>
    rw [rune_cons] at result
    split at result <;> cases result
    have width := width_bounds b t
    refine ⟨List.drop_suffix _ _, ?_⟩
    rw [List.length_drop]
    omega

theorem local_rune {c : UInt8} {u : GoString} (ascii : c < 0x80) : Local (c :: u) rune where
  shrinks := consumes_rune.shrinks
  stays := by
    intro t a r result
    cases t with
    | nil => exact .inr (consumes_rune _ _ _ result).2
    | cons b t =>
      have width := width_bounds b t
      rw [List.cons_append, rune_cons, ← List.cons_append, decodeRune_append ascii] at result
      split at result <;> rename_i valid <;> cases result
      refine .inl ⟨(b :: t).drop (decodeRune (b :: t)).2, ?_, by rw [rune_cons, if_neg valid]⟩
      exact List.drop_append_of_le_length width.2

section Exact

variable {c : UInt8} {u : GoString}

theorem exact_optional {accepts : UInt8 → Bool} (other : accepts c = false) :
    Exact (c :: u) (optional accepts) where
  shrinks := shrinks_optional accepts
  same := by
    intro t
    cases t with
    | nil =>
      change (if accepts c then _ else _) = _
      rw [other, if_neg Bool.false_ne_true]
      rfl
    | cons d t =>
      rw [List.cons_append, optional, optional]
      split <;> rfl

theorem exact_byte {accepts : UInt8 → Bool} (other : accepts c = false) :
    Exact (c :: u) (byte accepts) where
  shrinks := (consumes_byte accepts).shrinks
  same := by
    intro t
    cases t with
    | nil =>
      change (if accepts c then _ else _) = _
      rw [other, if_neg Bool.false_ne_true]
      rfl
    | cons d t =>
      rw [List.cons_append, byte, byte]
      split <;> rfl

theorem exact_run {accepts : UInt8 → Bool} (other : accepts c = false) :
    Exact (c :: u) (run accepts) where
  shrinks := shrinks_run accepts
  same := by
    intro t
    induction t with
    | nil =>
      rw [List.nil_append, run, List.takeWhile_cons_of_neg (by simp [other]),
        List.dropWhile_cons_of_neg (by simp [other])]
      rfl
    | cons d t ih =>
      rw [List.cons_append, run, run]
      by_cases test : accepts d = true
      · obtain ⟨taken, left⟩ := Prod.mk.inj (Option.some.inj ih)
        rw [List.takeWhile_cons_of_pos test, List.dropWhile_cons_of_pos test, taken, left,
          List.takeWhile_cons_of_pos test, List.dropWhile_cons_of_pos test]
        rfl
      · rw [List.takeWhile_cons_of_neg test, List.dropWhile_cons_of_neg test,
          List.takeWhile_cons_of_neg test, List.dropWhile_cons_of_neg test]
        rfl

end Exact

section Items

variable {stop : UInt8} {item : Reader α}

private theorem itemsFrom_enough (consumes : Consumes item) {n m : Nat} {first : Bool}
    {s : GoString} (enough : s.length < n) (enough' : s.length < m) :
    itemsFrom stop item n first s = itemsFrom stop item m first s := by
  induction n generalizing m first s with
  | zero => exact absurd enough (Nat.not_lt_zero _)
  | succ n ih =>
    cases m with
    | zero => exact absurd enough' (Nat.not_lt_zero _)
    | succ m =>
      rw [itemsFrom, itemsFrom, bind_run, bind_run]
      rcases found : optional (fun c => !first && c == stop) s with _ | ⟨_ | c, middle⟩
      · rfl
      · change (item >>= _) middle = (item >>= _) middle
        rw [bind_run, bind_run]
        have within := (shrinks_optional _ _ _ _ found).length_le
        rcases read : item middle with _ | ⟨a, left⟩
        · rfl
        · have shorter := (consumes _ _ _ read).2
          have same : itemsFrom stop item n false left = itemsFrom stop item m false left :=
            ih (by omega) (by omega)
          change (itemsFrom stop item n false >>= _) left = (itemsFrom stop item m false >>= _) left
          rw [bind_run, bind_run, same]
      · rfl

private theorem local_itemsFrom (inner : Local tail item) (fuel : Nat) (first : Bool) :
    Local tail (itemsFrom stop item fuel first) := by
  induction fuel generalizing first with
  | zero => exact .fail
  | succ fuel ih =>
    refine (local_optional _).bind fun found => ?_
    cases found with
    | none => exact inner.bind fun a => (ih false).bind fun rest => .pure _
    | some c => exact .pure _

theorem local_items (consumes : Consumes item) (inner : Local tail item) :
    Local tail (items stop item) where
  shrinks := fun s a r result => (local_itemsFrom inner _ true).shrinks s a r result
  stays := by
    intro t a r result
    rcases (local_itemsFrom inner _ true).stays t a r result with ⟨t', rest, read⟩ | short
    · refine .inl ⟨t', rest, ?_⟩
      rw [items, ← read]
      refine itemsFrom_enough consumes (Nat.lt_succ_self _) ?_
      rw [List.length_append]
      omega
    · exact .inr short

end Items

section CutPair

variable {a b : UInt8}

theorem suffix_of_cutPair {s front back : GoString} (found : cutPair a b s = some (front, back)) :
    back <:+ s ∧ back.length < s.length := by
  induction s generalizing front with
  | nil => cases found
  | cons c s ih =>
    cases s with
    | nil => cases found
    | cons d t =>
      rw [cutPair] at found
      split at found
      · cases found
        exact ⟨⟨[c, d], rfl⟩, by simp only [List.length_cons]; omega⟩
      · obtain ⟨⟨front', back'⟩, later, same⟩ := Option.map_eq_some_iff.mp found
        obtain ⟨-, rfl⟩ := Prod.mk.inj same
        have inner := ih later
        exact ⟨inner.1.trans (List.suffix_cons _ _), Nat.lt_succ_of_lt inner.2⟩

theorem cutPair_append {c : UInt8} {u : GoString} (absent : cutPair a b (c :: u) = none)
    (other : c ≠ b) (t : GoString) :
    cutPair a b (t ++ c :: u) =
      (cutPair a b t).map fun parts => (parts.1, parts.2 ++ c :: u) := by
  induction t with
  | nil => exact absent
  | cons d t ih =>
    cases t with
    | nil =>
      have spans : ¬ (d = a ∧ c = b) := fun both => other both.2
      change (if d = a ∧ c = b then _ else _) = _
      rw [if_neg spans, absent]
      rfl
    | cons e t =>
      rw [List.cons_append, List.cons_append, cutPair, cutPair]
      split
      · rfl
      · rw [← List.cons_append, ih, Option.map_map, Option.map_map]
        rfl

end CutPair

end Reader

end SignalAgent.Foundations.Readers

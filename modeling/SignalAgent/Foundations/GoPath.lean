/- MID: SignalAgent/Foundations/GoPath
   layer: library
   source: none
   digest: Lexical path cleaning byte by byte; a cleaned rooted path is a list of elements. -/

import Mathlib.Data.List.TakeWhile
import SignalAgent.Foundations.GoText

set_option autoImplicit false
set_option relaxedAutoImplicit false

namespace SignalAgent.Foundations.GoPath

open GoText

/-- Drop the last element that was written, down to `dotdot` bytes; the buffer is kept with its
last byte in front. -/
def backtrack (dotdot : Nat) : GoString → GoString
  | [] => []
  | b :: out => if dotdot < out.length && b ≠ 0x2F then backtrack dotdot out else out

/-- The element at the front of a path ends at this rest. -/
def atElementEnd (rest : GoString) : Bool := rest.head?.all (fun b => b = 0x2F)

/-- The loop of `path.Clean`. The buffer is kept with its last byte in front, and `dotdot` is how
far a parent reference may go back. Each turn reads at least one byte, which is the fuel. -/
def cleanFrom (rooted : Bool) : Nat → GoString → Nat → GoString → GoString
  | 0, _, _, out => out
  | _ + 1, [], _, out => out
  | n + 1, c :: rest, dotdot, out =>
    -- An empty element.
    if c = 0x2F then cleanFrom rooted n rest dotdot out
    -- The current directory.
    else if c = 0x2E && atElementEnd rest then cleanFrom rooted n rest dotdot out
    -- The parent directory.
    else if c = 0x2E && rest.head? = some 0x2E && atElementEnd (rest.drop 1) then
      if dotdot < out.length then
        cleanFrom rooted n (rest.drop 1) dotdot (backtrack dotdot out)
      else if rooted then cleanFrom rooted n (rest.drop 1) dotdot out
      else
        let out := 0x2E :: 0x2E :: (if out ≠ [] then 0x2F :: out else out)
        cleanFrom rooted n (rest.drop 1) out.length out
    else
      let out := if (rooted && out.length ≠ 1) || (!rooted && out.length ≠ 0) then 0x2F :: out
        else out
      cleanFrom rooted n ((c :: rest).dropWhile (· ≠ 0x2F)) dotdot
        (((c :: rest).takeWhile (· ≠ 0x2F)).reverse ++ out)

/-- `path.Clean`. -/
def clean (path : GoString) : GoString :=
  match path with
  | [] => [0x2E]
  | c :: rest =>
    let rooted := decide (c = 0x2F)
    let out := if rooted then cleanFrom rooted path.length rest 1 [0x2F]
      else cleanFrom rooted path.length path 0 []
    if out = [] then [0x2E] else out.reverse

/-- An element of a path: some bytes without a slash. -/
def Element (name : GoString) : Prop := name ≠ [] ∧ 0x2F ∉ name

/-- The text of a rooted path with these elements. -/
def rendered (names : List GoString) : GoString := names.flatMap (fun name => 0x2F :: name)

section Stack

/-- The buffer that holds these elements, the last one first. -/
private def buffer : List GoString → GoString
  | [] => [0x2F]
  | [name] => name.reverse ++ [0x2F]
  | name :: below => name.reverse ++ 0x2F :: buffer below

private theorem buffer_cons_of_ne (name : GoString) {stack : List GoString}
    (nonempty : stack ≠ []) :
    buffer (name :: stack) = name.reverse ++ 0x2F :: buffer stack := by
  cases stack with
  | nil => exact absurd rfl nonempty
  | cons below stack => rfl

private theorem buffer_ne_nil (stack : List GoString) : buffer stack ≠ [] := by
  cases stack with
  | nil => exact List.cons_ne_nil _ _
  | cons name stack => cases stack <;> simp [buffer]

private theorem length_buffer (stack : List GoString) (elements : ∀ name ∈ stack, Element name) :
    (buffer stack).length ≠ 1 ↔ stack ≠ [] := by
  cases stack with
  | nil => simp [buffer]
  | cons name stack =>
    have positive : 0 < name.length :=
      List.length_pos_of_ne_nil (elements name List.mem_cons_self).1
    have longer : 1 < (buffer (name :: stack)).length := by
      cases stack with
      | nil =>
        rw [buffer, List.length_append, List.length_reverse, List.length_singleton]
        omega
      | cons below stack =>
        rw [buffer_cons_of_ne name (List.cons_ne_nil below stack), List.length_append,
          List.length_reverse, List.length_cons]
        omega
    exact iff_of_true (by omega) (List.cons_ne_nil name stack)

private theorem buffer_push (name : GoString) {stack : List GoString}
    (elements : ∀ name ∈ stack, Element name) :
    name.reverse ++ (if (buffer stack).length ≠ 1 then 0x2F :: buffer stack else buffer stack) =
      buffer (name :: stack) := by
  by_cases empty : stack = []
  · subst empty
    rfl
  · rw [if_pos ((length_buffer stack elements).mpr empty), buffer_cons_of_ne name empty]

private theorem backtrack_append {front : GoString} (free : 0x2F ∉ front) {below : GoString}
    (deep : below ≠ []) :
    backtrack 1 (front ++ 0x2F :: below) = below := by
  induction front with
  | nil => simp [backtrack]
  | cons b front ih =>
    have other : b ≠ 0x2F := fun same => free (same ▸ List.mem_cons_self)
    have room : 1 < (front ++ 0x2F :: below).length := by
      have present := List.length_pos_of_ne_nil deep
      rw [List.length_append, List.length_cons]
      omega
    rw [List.cons_append, backtrack, decide_eq_true room, decide_eq_true other,
      Bool.and_true, if_pos rfl]
    exact ih (fun member => free (List.mem_cons_of_mem b member))

private theorem backtrack_root {front : GoString} (present : front ≠ []) (free : 0x2F ∉ front) :
    backtrack 1 (front ++ [0x2F]) = [0x2F] := by
  induction front with
  | nil => exact absurd rfl present
  | cons b front ih =>
    have other : b ≠ 0x2F := fun same => free (same ▸ List.mem_cons_self)
    have rest : 0x2F ∉ front := fun member => free (List.mem_cons_of_mem b member)
    cases front with
    | nil => simp [backtrack]
    | cons d front =>
      rw [List.cons_append, backtrack, if_pos (by simp [other])]
      exact ih (List.cons_ne_nil d front) rest

private theorem backtrack_buffer {name : GoString} {stack : List GoString}
    (element : Element name) : backtrack 1 (buffer (name :: stack)) = buffer stack := by
  have free : 0x2F ∉ name.reverse := fun member => element.2 (List.mem_reverse.mp member)
  have present : name.reverse ≠ [] := fun empty => element.1 (List.reverse_eq_nil_iff.mp empty)
  by_cases empty : stack = []
  · subst empty
    exact backtrack_root present free
  · rw [buffer_cons_of_ne name empty]
    exact backtrack_append free (buffer_ne_nil stack)

private theorem exists_stack (n : Nat) (path : GoString) (stack : List GoString)
    (elements : ∀ name ∈ stack, Element name) :
    ∃ stack', (∀ name ∈ stack', Element name) ∧
      cleanFrom true n path 1 (buffer stack) = buffer stack' := by
  induction n generalizing path stack with
  | zero => exact ⟨stack, elements, rfl⟩
  | succ n ih =>
    cases path with
    | nil => exact ⟨stack, elements, rfl⟩
    | cons c rest =>
      rw [cleanFrom]
      split
      · exact ih rest stack elements
      rename_i solid
      split
      · exact ih rest stack elements
      split
      · split
        · cases stack with
          | nil => exact absurd ‹_› (by simp [buffer])
          | cons name stack =>
            rw [backtrack_buffer (elements name List.mem_cons_self)]
            exact ih _ stack (fun other member => elements other (List.mem_cons_of_mem name member))
        · rw [if_pos rfl]
          exact ih _ stack elements
      · dsimp only
        have element : Element ((c :: rest).takeWhile (· ≠ 0x2F)) := by
          refine ⟨?_, fun member => ?_⟩
          · rw [List.takeWhile_cons_of_pos (by simpa using solid)]
            exact List.cons_ne_nil _ _
          · have passed := List.mem_takeWhile_imp member
            simp at passed
        have written := buffer_push ((c :: rest).takeWhile (· ≠ 0x2F)) elements
        simp only [Bool.true_and, Bool.not_true, Bool.false_and, Bool.or_false, decide_eq_true_eq]
        rw [written]
        refine ih _ _ (fun name member => ?_)
        rcases List.mem_cons.mp member with rfl | below
        · exact element
        · exact elements name below

private theorem reverse_buffer {stack : List GoString} (nonempty : stack ≠ []) :
    (buffer stack).reverse = rendered stack.reverse := by
  induction stack with
  | nil => exact absurd rfl nonempty
  | cons name stack ih =>
    by_cases empty : stack = []
    · subst empty
      simp [buffer, rendered]
    · rw [buffer_cons_of_ne name empty, List.reverse_append, List.reverse_cons, ih empty]
      simp [rendered]

end Stack

theorem clean_rooted (path : GoString) :
    clean (0x2F :: path) = [0x2F] ∨
      ∃ names, names ≠ [] ∧ (∀ name ∈ names, Element name) ∧
        clean (0x2F :: path) = rendered names := by
  obtain ⟨stack, elements, reached⟩ := exists_stack (0x2F :: path).length path [] (by simp)
  have unfolded : clean (0x2F :: path) = (buffer stack).reverse := by
    rw [clean]
    simp only [decide_true, if_true]
    rw [show [0x2F] = buffer [] from rfl, reached, if_neg (buffer_ne_nil stack)]
  rw [unfolded]
  by_cases empty : stack = []
  · subst empty
    exact .inl rfl
  · refine .inr ⟨stack.reverse, by simpa using empty, fun name member => ?_, reverse_buffer empty⟩
    exact elements name (List.mem_reverse.mp member)

section Rendered

theorem rendered_split {names : List GoString} (elements : ∀ name ∈ names, Element name)
    {front rest : GoString} (split : rendered names = front ++ 0x2F :: rest) :
    ∃ before name after, names = before ++ name :: after ∧ front = rendered before ∧
      rest = name ++ rendered after := by
  induction names generalizing front with
  | nil => exact absurd split (by simp [rendered])
  | cons name names ih =>
    have unfolded : rendered (name :: names) = 0x2F :: (name ++ rendered names) := by
      simp [rendered]
    have free := (elements name List.mem_cons_self).2
    rw [unfolded] at split
    cases front with
    | nil =>
      injection split with _ tail
      exact ⟨[], name, names, rfl, rfl, tail.symm⟩
    | cons c front =>
      injection split with first tail
      rcases List.append_eq_append_iff.mp tail with ⟨more, longer, later⟩ | ⟨more, shorter, later⟩
      · obtain ⟨before, next, after, rfl, rfl, rfl⟩ :=
          ih (fun other member => elements other (List.mem_cons_of_mem name member)) later
        exact ⟨name :: before, next, after, rfl, by simp [rendered, ← first, longer], rfl⟩
      · cases more with
        | nil =>
          have later' : rendered names = [] ++ 0x2F :: rest := by simpa using later.symm
          obtain ⟨before, next, after, rfl, same, rfl⟩ :=
            ih (fun other member => elements other (List.mem_cons_of_mem name member)) later'
          refine ⟨name :: before, next, after, rfl, ?_, rfl⟩
          rw [List.append_nil] at shorter
          simp [rendered, ← first, shorter] at same ⊢
          exact same
        | cons d more =>
          injection later with same
          refine absurd ?_ free
          rw [shorter, ← same]
          exact List.mem_append_right front List.mem_cons_self

theorem last_element_eq {front front' name name' : GoString} (free : 0x2F ∉ name)
    (free' : 0x2F ∉ name') (same : front ++ 0x2F :: name = front' ++ 0x2F :: name') :
    name = name' := by
  rcases List.append_eq_append_iff.mp same with ⟨more, -, later⟩ | ⟨more, -, later⟩
  · cases more with
    | nil => simpa using later
    | cons c more =>
      injection later with _ inside
      exact absurd (inside ▸ List.mem_append_right more List.mem_cons_self) free
  · cases more with
    | nil => simpa using later.symm
    | cons c more =>
      injection later with _ inside
      exact absurd (inside ▸ List.mem_append_right more List.mem_cons_self) free'

theorem count_rendered {names : List GoString} (elements : ∀ name ∈ names, Element name) :
    (rendered names).count 0x2F = names.length := by
  induction names with
  | nil => rfl
  | cons name names ih =>
    have free : name.count 0x2F = 0 :=
      List.count_eq_zero.mpr (elements name List.mem_cons_self).2
    have rest := ih (fun other member => elements other (List.mem_cons_of_mem name member))
    rw [rendered] at rest ⊢
    rw [List.flatMap_cons, List.cons_append, List.count_cons_self, List.count_append, free, rest,
      List.length_cons, Nat.zero_add]

end Rendered

end SignalAgent.Foundations.GoPath

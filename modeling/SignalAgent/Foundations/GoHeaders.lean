/- MID: SignalAgent/Foundations/GoHeaders
   layer: library
   source: none
   digest: HTTP header maps keyed by canonical names; the last value set under a name is kept. -/

import SignalAgent.Foundations.GoMaps
import SignalAgent.Foundations.GoText

set_option autoImplicit false
set_option relaxedAutoImplicit false

namespace SignalAgent.Foundations.GoHeaders

open GoMaps GoText

/-- The bytes of a header name: letters, digits and some punctuation. -/
def validHeaderFieldByte (c : UInt8) : Bool :=
  (0x30 ≤ c && c ≤ 0x39) || (0x41 ≤ c && c ≤ 0x5A) || (0x61 ≤ c && c ≤ 0x7A) ||
    c ∈ lit "!#$%&'*+-.^_\x60|~"

/-- A letter is upper case at the start and behind a hyphen, and lower case elsewhere. -/
def capitalize : Bool → GoString → GoString
  | _, [] => []
  | upper, c :: s =>
    let d :=
      if upper && 0x61 ≤ c && c ≤ 0x7A then c - 32
      else if !upper && 0x41 ≤ c && c ≤ 0x5A then c + 32
      else c
    d :: capitalize (d = 0x2D) s

/-- `http.CanonicalHeaderKey`; a name with any other byte is left alone. -/
def canonicalHeaderKey (key : GoString) : GoString :=
  if key.all validHeaderFieldByte then capitalize true key else key

/-- A header in which every name has one value. -/
abbrev Header := GoMap GoString GoString

/-- `Header.Set`. -/
def setHeader (h : Header) (key value : GoString) : Header :=
  h.insert (canonicalHeaderKey key) value

/-- The loop that sets every entry of a map; `order` is the order it visits them in. -/
def setAll (h : Header) (entries : GoMap GoString GoString) (order : List GoString) : Header :=
  order.foldl (fun h key => setHeader h key (index entries [] key)) h

/-- The last visited key of this canonical name. -/
def lastSet (order : List GoString) (name : GoString) : Option GoString :=
  order.reverse.find? (fun key => canonicalHeaderKey key = name)

theorem lookup_setHeader (h : Header) (key value name : GoString) :
    (setHeader h key value).lookup name =
      if name = canonicalHeaderKey key then some value else h.lookup name :=
  lookup_insert_eq h _ _ _

theorem lookup_setAll (h : Header) (entries : GoMap GoString GoString) (order : List GoString)
    (name : GoString) :
    (setAll h entries order).lookup name =
      match lastSet order name with
      | some key => some (index entries [] key)
      | none => h.lookup name := by
  induction order generalizing h with
  | nil => rfl
  | cons key rest ih =>
    have unfolded : setAll h entries (key :: rest) =
        setAll (setHeader h key (index entries [] key)) entries rest := rfl
    rw [unfolded, ih]
    unfold lastSet
    rw [List.reverse_cons, List.find?_append]
    cases found : rest.reverse.find? (fun key => canonicalHeaderKey key = name) with
    | some later => rfl
    | none =>
      by_cases same : canonicalHeaderKey key = name
      · simp [lookup_setHeader, same]
      · simp [lookup_setHeader, same, Ne.symm same]

/-- No two keys of the map stand for one header. -/
def Distinct (entries : GoMap GoString GoString) : Prop :=
  ∀ key ∈ entries, ∀ key' ∈ entries, canonicalHeaderKey key = canonicalHeaderKey key' → key = key'

theorem lastSet_order {entries : GoMap GoString GoString} (distinct : Distinct entries)
    {order order' : List GoString} (visits : IterationOrder entries order)
    (visits' : IterationOrder entries order') (name : GoString) :
    lastSet order name = lastSet order' name := by
  have agree : ∀ {first second : List GoString}, IterationOrder entries first →
      IterationOrder entries second → ∀ key, lastSet first name = some key →
        lastSet second name = some key := by
    intro first second visits visits' key found
    have named := List.find?_some found
    have listed := (visits.2 key).mp (List.mem_reverse.mp (List.mem_of_find?_eq_some found))
    have again : key ∈ second.reverse := List.mem_reverse.mpr ((visits'.2 key).mpr listed)
    cases other : lastSet second name with
    | none => exact absurd named (List.find?_eq_none.mp other key again)
    | some key' =>
      have named' := List.find?_some other
      have listed' := (visits'.2 key').mp (List.mem_reverse.mp (List.mem_of_find?_eq_some other))
      have same : canonicalHeaderKey key' = canonicalHeaderKey key :=
        (of_decide_eq_true named').trans (of_decide_eq_true named).symm
      rw [distinct key' listed' key listed same]
  cases found : lastSet order name with
  | some key => exact (agree visits visits' key found).symm
  | none =>
    cases other : lastSet order' name with
    | none => rfl
    | some key => exact absurd (found.symm.trans (agree visits' visits key other)) nofun

end SignalAgent.Foundations.GoHeaders

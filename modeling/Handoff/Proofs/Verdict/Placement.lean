import Handoff.Inspection
import Handoff.Proofs.Syntax.Grammar.File
import Handoff.Proofs.Verdict.Answers

/-!
# Elements of literals by their index

In a slice or array literal an element with a key has the index that the key writes, and an element
without key has the index behind the one before it. The search looks an index up in another way:
first among the keys, by their text, and then among the elements without key, by their number. Here
the two are compared.

## Main definitions

* `Search.integerValue`: the number that an integer literal writes.
* `Search.placed?`: the elements of a literal with their indices.
* `Search.InStep`: behind some elements, the next index is the number of those without key.

## Main statements

* `Search.elementOf_placed`: the element found for an index has this index if a key is written like
  the index; where base ten gives the index, only then or where the elements in front of it are in
  step.
* `Search.not_placed_keyedFollowers`: the search answers with an element that has another index.
-/

namespace Handoff

open Syntax Node

namespace Search

variable {n e k v body : Node} {es parts : List Node} {placed : List (Nat × Node)}
  {next i : Nat} {text : String}

/-! ### Integer literals -/

def digitValue (c : Char) : Nat :=
  if c.isDigit then c.toNat - '0'.toNat else c.toLower.toNat - 'a'.toNat + 10

/-- The number that digits write in a base. Underscores may stand between them. -/
def digitsValue (base : Nat) (cs : List Char) : Nat :=
  (cs.filter (· ≠ '_')).foldl (fun n c => base * n + digitValue c) 0

/-- The number that an integer literal writes. A zero in front means base eight, unless a letter for
a base follows. -/
def integerValue (text : String) : Nat :=
  match text.toList with
  | '0' :: c :: cs =>
    match c.toLower with
    | 'x' => digitsValue 16 cs
    | 'b' => digitsValue 2 cs
    | 'o' => digitsValue 8 cs
    | _ => digitsValue 8 (c :: cs)
  | cs => digitsValue 10 cs

def isDecimal (text : String) : Bool :=
  text.toList == ['0'] || text.toList.head? != some '0'

theorem integerValue_of_isDecimal (h : isDecimal text = true) :
    integerValue text = digitsValue 10 text.toList := by
  unfold integerValue
  split
  next c cs hcs => simp [isDecimal, hcs] at h
  next => rfl

/-- A position is the number that its text writes in base ten. -/
theorem digitsValue_of_position? (h : position? text = some i) :
    digitsValue 10 text.toList = i := by
  unfold position? at h
  dsimp only at h
  split at h
  next => cases h
  next hdigits =>
    obtain ⟨-, hvalue⟩ := Option.ite_none_right_eq_some.1 h
    have hall : ∀ c ∈ text.toList, c.isDigit = true := by
      simp only [Bool.not_eq_true, Bool.or_eq_false_iff, Bool.not_eq_eq_eq_not,
        Bool.not_false] at hdigits
      exact List.all_eq_true.1 hdigits.2
    have hplain : text.toList.filter (· ≠ '_') = text.toList := by
      refine List.filter_eq_self.2 fun c hc => decide_eq_true ?_
      rintro rfl
      exact absurd (hall _ hc) (by decide)
    rw [digitsValue, hplain, ← Option.some.inj hvalue]
    refine List.foldl_ext _ _ _ fun n c hc => ?_
    rw [digitValue, if_pos (hall c hc)]

def indexValue? (n : Node) : Option Nat :=
  if n.kind = .intLiteral then some (integerValue n.text) else none

theorem integerValue_of_indexValue? (h : indexValue? n = some i) : integerValue n.text = i :=
  Option.some.inj (Option.ite_none_right_eq_some.1 h).2

/-! ### Indices of elements -/

def keyValue? (e : Node) : Option (Node × Node) :=
  if e.kind = .keyedElement then
    match e.parts with
    | k :: v :: _ => some (k.element, v.element)
    | _ => none
  else none

def isUnkeyed (e : Node) : Bool := e.kind != .keyedElement

/-- The index and the value of an element that stands behind others. -/
def place? (next : Nat) (e : Node) : Option (Nat × Node) :=
  if isUnkeyed e then some (next, e.element)
  else (keyValue? e).bind fun entry => (indexValue? entry.1).map fun i => (i, entry.2)

/-- The elements of a literal with their indices, the first of which is given. All keys have to be
integer literals. -/
def placed? (next : Nat) : List Node → Option (List (Nat × Node))
  | [] => some []
  | e :: es => (place? next e).bind fun p => (placed? (p.1 + 1) es).map (p :: ·)

def nextIndex (next : Nat) : List Node → Nat
  | [] => next
  | e :: es => nextIndex (((place? next e).map Prod.fst).getD next + 1) es

theorem placed?_cons (h : placed? next (e :: es) = some placed) :
    ∃ p rest, place? next e = some p ∧ placed? (p.1 + 1) es = some rest ∧ placed = p :: rest := by
  obtain ⟨p, hp, h⟩ := Option.bind_eq_some_iff.1 h
  obtain ⟨rest, hrest, rfl⟩ := Option.map_eq_some_iff.1 h
  exact ⟨p, rest, hp, hrest, rfl⟩

/-- The elements behind others are placed from the next index on. -/
theorem placed?_append {before after : List Node}
    (h : placed? next (before ++ after) = some placed) :
    ∃ front back, placed? next before = some front ∧
      placed? (nextIndex next before) after = some back ∧ placed = front ++ back := by
  induction before generalizing next placed with
  | nil => exact ⟨[], placed, rfl, h, rfl⟩
  | cons e before ih =>
    obtain ⟨p, rest, hp, hrest, rfl⟩ := placed?_cons h
    obtain ⟨front, back, hfront, hback, rfl⟩ := ih hrest
    refine ⟨p :: front, back, ?_, ?_, rfl⟩
    · rw [placed?, hp, Option.bind_some, hfront, Option.map_some]
    · rwa [nextIndex, hp]

theorem place?_unkeyed (h : isUnkeyed e = true) : place? next e = some (next, e.element) :=
  if_pos h

theorem place?_keyed (h : isUnkeyed e = false) {p : Nat × Node} (hp : place? next e = some p) :
    ∃ key, keyValue? e = some (key, p.2) ∧ indexValue? key = some p.1 := by
  rw [place?, if_neg (by simp [h])] at hp
  obtain ⟨⟨key, value⟩, hentry, hp⟩ := Option.bind_eq_some_iff.1 hp
  obtain ⟨i, hi, rfl⟩ := Option.map_eq_some_iff.1 hp
  exact ⟨key, hentry, hi⟩

theorem isUnkeyed_of_keyValue? {entry : Node × Node} (h : keyValue? e = some entry) :
    isUnkeyed e = false := by
  obtain ⟨hkind, -⟩ := Option.ite_none_right_eq_some.1 h
  simp [isUnkeyed, hkind]

/-- An element with a key has the index that the key writes. -/
theorem mem_placed_of_keyValue? (hplaced : placed? next parts = some placed) (he : e ∈ parts)
    (hentry : keyValue? e = some (k, v)) : ∃ i, indexValue? k = some i ∧ (i, v) ∈ placed := by
  obtain ⟨before, after, rfl⟩ := List.append_of_mem he
  obtain ⟨front, back, -, hback, rfl⟩ := placed?_append hplaced
  obtain ⟨p, rest, hp, -, rfl⟩ := placed?_cons hback
  obtain ⟨key, hkey, hi⟩ := place?_keyed (isUnkeyed_of_keyValue? hentry) hp
  obtain ⟨rfl, rfl⟩ := Prod.mk.inj (Option.some.inj (hentry.symm.trans hkey))
  exact ⟨p.1, hi, by simp⟩

/-- An element without key has the index behind those in front of it. -/
theorem mem_placed_of_isUnkeyed {before after : List Node}
    (hplaced : placed? next (before ++ e :: after) = some placed) (he : isUnkeyed e = true) :
    (nextIndex next before, e.element) ∈ placed := by
  obtain ⟨front, back, -, hback, rfl⟩ := placed?_append hplaced
  obtain ⟨p, rest, hp, -, rfl⟩ := placed?_cons hback
  rw [place?_unkeyed he] at hp
  obtain rfl := Option.some.inj hp
  simp

theorem keyValue?_mem_preorder (h : keyValue? e = some (k, v)) : v ∈ e.preorder := by
  obtain ⟨-, h⟩ := Option.ite_none_right_eq_some.1 h
  split at h
  next key value rest hparts =>
    obtain ⟨-, rfl⟩ := Prod.mk.inj (Option.some.inj h)
    exact preorder_trans (parts_subset (by simp [hparts])) (element_mem_preorder value)
  next => cases h

theorem place?_mem_preorder {p : Nat × Node} (hp : place? next e = some p) : p.2 ∈ e.preorder := by
  cases he : isUnkeyed e with
  | true =>
    rw [place?_unkeyed he] at hp
    obtain rfl := Option.some.inj hp
    exact element_mem_preorder e
  | false =>
    obtain ⟨key, hentry, -⟩ := place?_keyed he hp
    exact keyValue?_mem_preorder hentry

/-- The values of placed elements stand in the elements. -/
theorem exists_of_mem_placed {p : Nat × Node} (hplaced : placed? next es = some placed)
    (h : p ∈ placed) : ∃ e ∈ es, p.2 ∈ e.preorder := by
  induction es generalizing next placed with
  | nil =>
    obtain rfl := Option.some.inj hplaced
    cases h
  | cons e es ih =>
    obtain ⟨first, rest, hfirst, hrest, rfl⟩ := placed?_cons hplaced
    obtain rfl | h := List.mem_cons.1 h
    · exact ⟨e, List.mem_cons_self, place?_mem_preorder hfirst⟩
    · obtain ⟨c, hc, hp⟩ := ih hrest h
      exact ⟨c, List.mem_cons_of_mem _ hc, hp⟩

/-- Different elements have different values. -/
theorem nodup_placed (hapart : es.Pairwise Apart) (hplaced : placed? next es = some placed) :
    (placed.map Prod.snd).Nodup := by
  induction es generalizing next placed with
  | nil =>
    obtain rfl := Option.some.inj hplaced
    exact List.nodup_nil
  | cons e es ih =>
    obtain ⟨hothers, hapart⟩ := List.pairwise_cons.1 hapart
    obtain ⟨p, rest, hp, hrest, rfl⟩ := placed?_cons hplaced
    refine List.nodup_cons.2 ⟨fun hmem => ?_, ih hapart hrest⟩
    obtain ⟨q, hq, heq⟩ := List.mem_map.1 hmem
    obtain ⟨c, hc, hqc⟩ := exists_of_mem_placed hrest hq
    exact hothers c hc p.2 (place?_mem_preorder hp) (heq ▸ hqc)

/-! ### Numbers of elements -/

/-- The elements in front of the one without key that has the given number. -/
def upTo : Nat → List Node → List Node
  | _, [] => []
  | 0, e :: es => if isUnkeyed e then [] else e :: upTo 0 es
  | i + 1, e :: es => e :: upTo (if isUnkeyed e then i else i + 1) es

/-- In front of an element without key stand as many others without key as its number says. -/
theorem exists_upTo (h : (es.filter isUnkeyed)[i]? = some e) :
    isUnkeyed e = true ∧ ((upTo i es).filter isUnkeyed).length = i ∧ ∃ after, es = upTo i es ++
      e :: after := by
  refine ⟨List.of_mem_filter (List.mem_of_getElem? h), ?_⟩
  induction es generalizing i with
  | nil => cases h
  | cons c es ih =>
    cases hc : isUnkeyed c with
    | true =>
      rw [List.filter_cons_of_pos hc] at h
      cases i with
      | zero =>
        obtain rfl : c = e := Option.some.inj h
        simp [upTo, hc]
      | succ i =>
        obtain ⟨hcount, after, hes⟩ := ih h
        simp only [upTo, hc, if_true]
        exact ⟨by simp [List.filter_cons_of_pos hc, hcount], after, by rw [List.cons_append, ← hes]⟩
    | false =>
      rw [List.filter_cons_of_neg (by simp [hc])] at h
      obtain ⟨hcount, after, hes⟩ := ih h
      have hupTo : upTo i (c :: es) = c :: upTo i es := by
        cases i <;> simp [upTo, hc]
      rw [hupTo, List.filter_cons_of_neg (by simp [hc])]
      exact ⟨hcount, after, by rw [List.cons_append, ← hes]⟩

/-- The last element with a key, if there is one, has a key that is one less than the number of
elements without key in front of it. -/
def InStep (es : List Node) : Prop :=
  ∀ before e after k v i, es = before ++ e :: after → keyValue? e = some (k, v) →
    indexValue? k = some i → (∀ a ∈ after, isUnkeyed a = true) →
      i + 1 = (before.filter isUnkeyed).length

theorem append_singleton_cases {before after : List Node} {c : Node}
    (h : es ++ [e] = before ++ c :: after) :
    (after = [] ∧ es = before ∧ e = c) ∨ ∃ rest, after = rest ++ [e] ∧
      es = before ++ c :: rest := by
  induction after using List.reverseRecOn with
  | nil =>
    obtain ⟨hes, hc⟩ := List.append_inj' h rfl
    exact .inl ⟨rfl, hes, List.singleton_inj.1 hc⟩
  | append_singleton rest a _ =>
    rw [← List.cons_append, ← List.append_assoc] at h
    obtain ⟨hes, ha⟩ := List.append_inj' h rfl
    exact .inr ⟨rest, by rw [ha], hes⟩

theorem inStep_append_unkeyed (he : isUnkeyed e = true) : InStep (es ++ [e]) ↔ InStep es := by
  constructor
  · intro h before c after k v i hes hentry hi hafter
    refine h before c (after ++ [e]) k v i (by simp [hes]) hentry hi fun a ha => ?_
    obtain ha | ha := List.mem_append.1 ha
    · exact hafter a ha
    · exact List.mem_singleton.1 ha ▸ he
  · intro h before c after k v i hes hentry hi hafter
    obtain ⟨-, -, rfl⟩ | ⟨rest, rfl, hfront⟩ := append_singleton_cases hes
    · simp [isUnkeyed_of_keyValue? hentry] at he
    · exact h before c rest k v i hfront hentry hi fun a ha => hafter a (List.mem_append_left _ ha)

theorem inStep_append_keyed (hentry : keyValue? e = some (k, v)) (hi : indexValue? k = some i) :
    InStep (es ++ [e]) ↔ i + 1 = (es.filter isUnkeyed).length := by
  constructor
  · intro h
    exact h es e [] k v i rfl hentry hi fun a ha => by cases ha
  · intro h before c after k' v' i' hes hentry' hi' hafter
    obtain ⟨-, rfl, rfl⟩ | ⟨rest, rfl, -⟩ := append_singleton_cases hes
    · obtain ⟨rfl, -⟩ := Prod.mk.inj (Option.some.inj (hentry.symm.trans hentry'))
      rwa [← Option.some.inj (hi.symm.trans hi')]
    · have hkeyed := hafter e (by simp)
      simp [isUnkeyed_of_keyValue? hentry] at hkeyed

theorem nextIndex_append (before after : List Node) :
    nextIndex next (before ++ after) = nextIndex (nextIndex next before) after := by
  induction before generalizing next with
  | nil => rfl
  | cons e before ih => exact ih

/-- Behind elements that are in step, the next index is the number of those without key. -/
theorem nextIndex_eq_iff (h : placed? 0 es = some placed) :
    nextIndex 0 es = (es.filter isUnkeyed).length ↔ InStep es := by
  induction es using List.reverseRecOn generalizing placed with
  | nil => simp [nextIndex, InStep]
  | append_singleton es e ih =>
    obtain ⟨front, back, hfront, hback, -⟩ := placed?_append h
    obtain ⟨p, rest, hp, -, -⟩ := placed?_cons hback
    have hnext : nextIndex 0 (es ++ [e]) = p.1 + 1 := by
      rw [nextIndex_append, nextIndex, hp]
      rfl
    rw [hnext, List.filter_append, List.length_append]
    cases he : isUnkeyed e with
    | true =>
      rw [place?_unkeyed he] at hp
      obtain rfl := Option.some.inj hp
      rw [inStep_append_unkeyed he, ← ih hfront]
      simp [he]
    | false =>
      obtain ⟨key, hentry, hi⟩ := place?_keyed he hp
      rw [inStep_append_keyed hentry hi]
      simp [he]

/-! ### The element at an index -/

variable {literal index value : Node}

theorem keyedElement?_eq (key : Key) (es : List Node) : keyedElement? key es = es.findSome? fun e =>
    (keyValue? e).bind fun entry => if entry.1.text = key.text then some entry.2 else none := by
  unfold keyedElement?
  congr 1
  funext e
  unfold keyValue?
  split
  · generalize e.parts = parts
    rcases parts with _ | ⟨k, _ | ⟨v, rest⟩⟩ <;> rfl
  · rfl

/-- An element is found by a key that is written like the index or, if there is none, by its
number. -/
theorem elementOf_index_cases (hbody : literal.child? .body = some body)
    (h : elementOf literal (.index index) = some value) :
    (∃ e ∈ body.parts, ∃ k, keyValue? e = some (k, value) ∧ k.text = index.text) ∨
      (∀ e ∈ body.parts, ∀ k v, keyValue? e = some (k, v) → k.text ≠ index.text) ∧
        ∃ i e, position? index.text = some i ∧ (body.parts.filter isUnkeyed)[i]? = some e ∧
          e.element = value := by
  unfold elementOf at h
  rw [hbody] at h
  dsimp only [bind, Option.bind] at h
  split at h
  next found hfound =>
    obtain rfl := Option.some.inj h
    rw [keyedElement?_eq] at hfound
    obtain ⟨e, he, hvalue⟩ := List.exists_of_findSome?_eq_some hfound
    obtain ⟨⟨k, v⟩, hentry, hvalue⟩ := Option.bind_eq_some_iff.1 hvalue
    obtain ⟨htext, hvalue⟩ := Option.ite_none_right_eq_some.1 hvalue
    obtain rfl := Option.some.inj hvalue
    exact .inl ⟨e, he, k, hentry, htext⟩
  next hfound =>
    rw [keyedElement?_eq, List.findSome?_eq_none_iff] at hfound
    refine .inr ⟨fun e he k v hentry htext => ?_, ?_⟩
    · have hnone := hfound e he
      simp [hentry, Key.text, htext] at hnone
    · obtain ⟨-, h⟩ := Option.ite_none_right_eq_some.1 h
      obtain ⟨i, hi, h⟩ := Option.bind_eq_some_iff.1 h
      obtain ⟨e, he, hvalue⟩ := Option.bind_eq_some_iff.1 h
      exact ⟨i, e, hi, he, Option.some.inj hvalue⟩

/-- A key in a literal is written like the index. -/
def HasKey (es : List Node) (index : Node) : Prop :=
  ∃ e ∈ es, ∃ k v, keyValue? e = some (k, v) ∧ k.text = index.text

/-- The element that the search finds for an index has this index if a key is written like the
index. Otherwise the index is read in base ten, and the element has the index behind those in front
of the element with that number. Where base ten gives the index itself, this is the index just when
the elements in front are in step. -/
theorem elementOf_placed (wf : literal.WellFormed) (hbody : literal.child? .body = some body)
    (hplaced : placed? 0 body.parts = some placed) (hindex : indexValue? index = some i)
    (h : elementOf literal (.index index) = some value) :
    (HasKey body.parts index → (i, value) ∈ placed) ∧
      ((i, value) ∈ placed ↔
        HasKey body.parts index ∨
          nextIndex 0 (upTo (digitsValue 10 index.text.toList) body.parts) = i) ∧
      (digitsValue 10 index.text.toList = i →
        ((i, value) ∈ placed ↔ HasKey body.parts index ∨ InStep (upTo i body.parts))) := by
  have hi := integerValue_of_indexValue? hindex
  obtain ⟨e, he, k, hentry, htext⟩ | ⟨hkeys, j, e, hj, he, rfl⟩ := elementOf_index_cases hbody h
  · obtain ⟨j, hj, hmem⟩ := mem_placed_of_keyValue? hplaced he hentry
    have hmem : (i, value) ∈ placed := by
      rwa [← hi, ← htext, integerValue_of_indexValue? hj]
    have hkey : HasKey body.parts index := ⟨e, he, k, value, hentry, htext⟩
    exact ⟨fun _ => hmem, iff_of_true hmem (.inl hkey), fun _ => iff_of_true hmem (.inl hkey)⟩
  · have hnone : ¬ HasKey body.parts index := by
      rintro ⟨e, he, k, v, hentry, htext⟩
      exact hkeys e he k v hentry htext
    rw [or_iff_right hnone, or_iff_right hnone, digitsValue_of_position? hj]
    obtain ⟨hunkeyed, hcount, after, hparts⟩ := exists_upTo he
    -- the index of the element is the next one behind those with a lower number
    obtain ⟨front, -, hfront, -⟩ := placed?_append (hparts ▸ hplaced)
    have hfound : (nextIndex 0 (upTo j body.parts), e.element) ∈ placed :=
      mem_placed_of_isUnkeyed (hparts ▸ hplaced) hunkeyed
    have hapart : body.parts.Pairwise Apart :=
      (wf.distinct.pairwise_apart (preorder_of_child? hbody)).sublist List.filter_sublist
    have hiff : (i, e.element) ∈ placed ↔ nextIndex 0 (upTo j body.parts) = i := by
      constructor
      · intro hmem
        exact congrArg Prod.fst
          (List.inj_on_of_nodup_map (nodup_placed hapart hplaced) hfound hmem rfl)
      · rintro rfl
        exact hfound
    refine ⟨fun hkey => absurd hkey hnone, hiff, ?_⟩
    rintro rfl
    rw [hiff, ← nextIndex_eq_iff hfront, hcount]

/-- A literal whose elements without key come back to the low indices. -/
def lateFirst : String :=
  "package p\nfunc run() \x7b\n\tfs := []func()\x7b5: a, b, 0: c, d\x7d\n\tfs[1]()\n\x7d\n"

set_option maxRecDepth 4000 in
theorem elementOf_placed_lateFirst :
    ∃ literal body index value placed, literal ∈ (parse lateFirst).preorder ∧
      literal.kind = .compositeLiteral ∧ literal.child? .body = some body ∧
        placed? 0 body.parts = some placed ∧ indexValue? index = some 1 ∧
      elementOf literal (.index index) = some value ∧ ¬ HasKey body.parts index ∧
        InStep (upTo 1 body.parts) ∧
      value.text = "d" ∧ (1, value) ∈ placed := by
  have hfound : (parse lateFirst).preorder.any (fun literal => literal.kind == .compositeLiteral &&
      (literal.child? .body).any fun body => (placed? 0 body.parts).any fun placed =>
        (parse lateFirst).preorder.any fun expr => (expr.child? .index).any fun index =>
          indexValue? index == some 1 && isDecimal index.text &&
          body.parts.all (fun e => (keyValue? e).all fun entry => entry.1.text != index.text) &&
          (placed? 0 (upTo 1 body.parts)).any (fun _ =>
            nextIndex 0 (upTo 1 body.parts) == ((upTo 1 body.parts).filter isUnkeyed).length) &&
          (elementOf literal (.index index)).any fun value => value.text == "d") = true := by
    decide +kernel
  simp only [List.any_eq_true, Option.any_eq_true, Bool.and_eq_true, List.all_eq_true,
    Option.all_eq_true, beq_iff_eq, bne_iff_ne] at hfound
  obtain ⟨literal, hliteral, hkind, body, hbody, placed, hplaced, expr, -, index, -,
    ⟨⟨⟨hindex, hdecimal⟩, hkeys⟩, front, hfront, hcount⟩, value, hvalue, htext⟩ := hfound
  have hnone : ¬ HasKey body.parts index := by
    rintro ⟨e, he, k, v, hentry, hk⟩
    exact hkeys e he (k, v) hentry hk
  have hstep : InStep (upTo 1 body.parts) := (nextIndex_eq_iff hfront).1 hcount
  have hten : digitsValue 10 index.text.toList = 1 := by
    rw [← integerValue_of_isDecimal hdecimal, integerValue_of_indexValue? hindex]
  have wf := (parse_wellFormed lateFirst).of_mem hliteral
  exact ⟨literal, body, index, value, placed, hliteral, hkind, hbody, hplaced, hindex, hvalue,
    hnone, hstep, htext,
      ((elementOf_placed wf hbody hplaced hindex hvalue).2.2 hten).2 (.inr hstep)⟩

/-- A literal with a key in the middle; only its last closure, at index three, uses no context. -/
def keyedFollowers : String :=
  "package p\nimport \"context\"\nfunc run(ctx context.Context) \x7b\n" ++
    "\tfns := []func()\x7bfunc() \x7b _ = ctx \x7d, 1: func() \x7b _ = ctx \x7d, " ++
    "func() \x7b _ = ctx \x7d, func() \x7b\x7d\x7d\n\tgo fns[2]()\n\x7d\n"

set_option maxRecDepth 4000 in
/-- The search answers for index two with the closure at index three, and so the goroutine is
reported. -/
theorem not_placed_keyedFollowers :
    (∃ literal body index value placed, literal ∈ (parse keyedFollowers).preorder ∧
      literal.kind = .compositeLiteral ∧ literal.child? .body = some body ∧
        placed? 0 body.parts = some placed ∧ indexValue? index = some 2 ∧
      elementOf literal (.index index) = some value ∧ value.text = "func() \x7b\x7d" ∧
      ∀ p ∈ placed, p.1 = 2 → p.2.text = "func() \x7b _ = ctx \x7d") ∧
    (check .standard keyedFollowers).map Finding.checker = [.goroutine] := by
  have hfound :
      (parse keyedFollowers).preorder.any
        (fun literal => literal.kind == .compositeLiteral && (literal.child? .body).any fun body =>
          (placed? 0 body.parts).any fun placed => (parse keyedFollowers).preorder.any fun expr =>
            (expr.child? .index).any fun index => indexValue? index == some 2 &&
          (elementOf literal (.index index)).any (fun value => value.text == "func() \x7b\x7d") &&
          placed.all fun p => p.1 = 2 → p.2.text = "func() \x7b _ = ctx \x7d") = true := by
    decide +kernel
  simp only [List.any_eq_true, Option.any_eq_true, Bool.and_eq_true, List.all_eq_true, beq_iff_eq,
    decide_eq_true_eq] at hfound
  obtain ⟨literal, hliteral, hkind, body, hbody, placed, hplaced, expr, -, index, -,
    ⟨hindex, value, hvalue, htext⟩, hother⟩ := hfound
  exact ⟨⟨literal, body, index, value, placed, hliteral, hkind, hbody, hplaced, hindex, hvalue,
    htext, hother⟩, by decide +kernel⟩

end Search

end Handoff

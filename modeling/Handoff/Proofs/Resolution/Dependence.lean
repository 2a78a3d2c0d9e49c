import Handoff.Proofs.Resolution.Provenance
import Handoff.Proofs.Resolution.Reordering
import Mathlib.Data.Fintype.Card

/-!
# Declarations that depend on one another

A declaration changes a binding of the package when it gives it a value, or a value to a field or an
element of it. What a resolution finds in a declaration depends on the changes that were made before
to the bindings that the declaration mentions. Where declarations that depend on one another keep
their order, a file and a reordering of it are resolved alike.

## Main definitions

* `Resolution.dependent`: one of two declarations changes what the other mentions.
* `KeepsOrder`: declarations that depend on one another keep their order.

## Main statements

* `Rearranged.sameContents`: bindings of the package have the same contents after visits of the
  declarations that write to them.
* `Rearranged.like`: a file and a reordering of it are resolved alike.
-/

namespace Handoff

open Syntax Node Resolver

namespace Resolution

def mentionedIn (r : Resolution) (d : Node) (i : Nat) : Bool :=
  d.preorder.any fun n => r.uses.contains (n.id, i)

def assignsPart (r : Resolution) (n : Node) (i : Nat) : Bool :=
  n.kind == .assignmentStatement && (valuesIn n .left).any fun target =>
    (target.bare.kind == .selectorExpression || target.bare.kind == .indexExpression) &&
      ((target.bare.child? .operand).map Node.bare).any fun operand =>
        operand.kind == .identifier && r.useOf operand == some i

def changedIn (r : Resolution) (d : Node) (i : Nat) : Bool :=
  ((r.bindings[i]?).any fun b => b.writes.any fun w => d.preorder.any (·.id == w.site.id)) ||
    d.preorder.any (r.assignsPart · i)

def dependent (r : Resolution) (d e : Node) : Bool :=
  (List.range r.bindings.length).any fun i =>
    r.changedIn d i && r.mentionedIn e i || r.mentionedIn d i && r.changedIn e i

end Resolution

def KeepsOrder (root root' : Node) (ps : List (Node × Node)) : Prop :=
  ∀ {d d' e e' : Node}, (d, d') ∈ ps → (e, e') ∈ ps → [d, e].Sublist root.parts →
    (Resolution.ofFile root).dependent d e = true → [d', e'].Sublist root'.parts

namespace Resolution

variable {r : Resolution} {d e : Node} {i : Nat}

theorem mentionedIn_iff : r.mentionedIn d i = true ↔ ∃ n ∈ d.preorder, (n.id, i) ∈ r.uses := by
  simp [mentionedIn]

theorem changedIn_of_writtenIn (h : r.WrittenIn d i) : r.changedIn d i = true := by
  obtain ⟨b, hb, w, hw, hsite⟩ := h
  rw [changedIn, Bool.or_eq_true]
  left
  rw [hb, Option.any_some]
  exact List.any_eq_true.2 ⟨w, hw, List.any_eq_true.2 ⟨w.site, hsite, beq_self_eq_true _⟩⟩

theorem dependent_comm (r : Resolution) (d e : Node) : r.dependent d e = r.dependent e d := by
  unfold dependent
  congr 1
  funext i
  rw [Bool.or_comm, Bool.and_comm (r.mentionedIn d i), Bool.and_comm (r.changedIn d i)]

theorem dependent_of_changedIn (hi : i < r.bindings.length) (hd : r.changedIn d i = true)
    (he : r.mentionedIn e i = true) : r.dependent d e = true :=
  List.any_eq_true.2 ⟨i, List.mem_range.2 hi, by rw [hd, he]; rfl⟩

end Resolution

/-! ### Order in a list -/

section Lists

variable {α : Type} {a b : α} {l : List α}

/-- Two entries of a list without repetition stand in one order. -/
theorem not_sublist_swap (hl : l.Nodup) (hab : [a, b].Sublist l) : ¬ [b, a].Sublist l := by
  induction l with
  | nil => cases hab
  | cons x l ih =>
    obtain ⟨hx, hl⟩ := List.nodup_cons.1 hl
    intro hba
    cases hab with
    | cons _ hab =>
      cases hba with
      | cons _ hba => exact ih hl hab hba
      | cons_cons _ hba => exact hx (hab.subset (by simp))
    | cons_cons _ hab =>
      cases hba with
      | cons _ hba => exact hx (hba.subset (by simp))
      | cons_cons _ hba => exact hx (hab.subset (by simp))

theorem sublist_pair_of_mem_left {p q : List α} (ha : a ∈ p) : [a, b].Sublist (p ++ b :: q) :=
  (List.singleton_sublist.2 ha).append ((List.Sublist.refl [b]).trans (by simp))

theorem sublist_pair_of_mem_right {p q : List α} (hb : b ∈ q) : [a, b].Sublist (p ++ a :: q) :=
  ((List.singleton_sublist.2 hb).cons_cons a).trans (List.sublist_append_right ..)

theorem sublist_pair_or (ha : a ∈ l) (hb : b ∈ l) (hne : a ≠ b) :
    [a, b].Sublist l ∨ [b, a].Sublist l := by
  obtain ⟨p, q, rfl⟩ := List.append_of_mem ha
  obtain hb | hb := List.mem_append.1 hb
  · exact .inr (sublist_pair_of_mem_left hb)
  · exact .inl (sublist_pair_of_mem_right ((List.mem_cons.1 hb).resolve_left hne.symm))

/-- The last element of a list with a property. -/
theorem exists_last {P : α → Prop} (h : ∃ a ∈ l, P a) :
    ∃ p a q, l = p ++ a :: q ∧ P a ∧ ∀ b ∈ q, ¬ P b := by
  induction l using List.reverseRecOn with
  | nil =>
    obtain ⟨a, ha, -⟩ := h
    cases ha
  | append_singleton l x ih =>
    by_cases hx : P x
    · exact ⟨l, x, [], rfl, hx, by simp⟩
    · obtain ⟨a, ha, hPa⟩ := h
      have ha : a ∈ l := by
        obtain ha | ha := List.mem_append.1 ha
        · exact ha
        · exact absurd (List.mem_singleton.1 ha ▸ hPa) hx
      obtain ⟨p, a, q, rfl, hPa, hq⟩ := ih ⟨a, ha, hPa⟩
      refine ⟨p, a, q ++ [x], by simp, hPa, fun b hb => ?_⟩
      obtain hb | hb := List.mem_append.1 hb
      · exact hq b hb
      · exact List.mem_singleton.1 hb ▸ hx

end Lists

namespace Rearranged

variable {root root' n n' d d' e e' : Node} {ps : List (Node × Node)} {p q rest rest' : List Node}
  {i j : Nat} {b b' : Binding} (h : Rearranged root root' ps)

include h

theorem mem_bodies_iff (hp : (d, d') ∈ ps) : d ∈ bodies root ↔ d' ∈ bodies root' := by
  rw [bodies, bodies, List.mem_filter, List.mem_filter, h.mem_parts_iff h.wf h.wf' hp, hasBody,
    hasBody, h.kind hp]

/-- A declaration that depends on another is visited before it in both files or in none. -/
theorem mem_before_iff (hkept : KeepsOrder root root' ps) (hsplit : p ++ d :: rest = bodies root)
    (hsplit' : q ++ d' :: rest' = bodies root') (hdd : (d, d') ∈ ps) (he : e ∈ bodies root)
    (hee : (e, e') ∈ ps) (hdependent : (Resolution.ofFile root).dependent e d = true)
    (hne : e ≠ d) : e ∈ p ↔ e' ∈ q := by
  have hsub : ∀ {l : List Node}, l.Sublist (p ++ d :: rest) → l.Sublist root.parts := fun hl =>
    (hsplit ▸ hl).trans List.filter_sublist
  have hsub' : ∀ {l : List Node}, l.Sublist root'.parts → (∀ x ∈ l, x ∈ bodies root') →
      l.Sublist (q ++ d' :: rest') := by
    intro l hl hall
    rw [hsplit', bodies, ← List.filter_eq_self.2 fun x hx => (List.mem_filter.1 (hall x hx)).2]
    exact hl.filter hasBody
  have hd' : d' ∈ bodies root' := hsplit' ▸ by simp
  have he' : e' ∈ bodies root' := (h.mem_bodies_iff hee).1 he
  have hnodup : (q ++ d' :: rest').Nodup := hsplit' ▸ nodup_bodies h.wf'
  have hne' : e' ≠ d' := fun heq => hne (h.left_unique h.wf h.wf' hee (heq ▸ hdd))
  constructor
  · intro hep
    have hbefore := hsub' (hkept hee hdd (hsub (sublist_pair_of_mem_left hep)) hdependent)
      (by simp [hd', he'])
    obtain hq | hq := List.mem_append.1 (hsplit' ▸ he' : e' ∈ q ++ d' :: rest')
    · exact hq
    · have hrest := (List.mem_cons.1 hq).resolve_left hne'
      exact absurd hbefore (not_sublist_swap hnodup (sublist_pair_of_mem_right hrest))
  · intro heq
    obtain hp | hp := List.mem_append.1 (hsplit ▸ he : e ∈ p ++ d :: rest)
    · exact hp
    · have hrest := (List.mem_cons.1 hp).resolve_left hne
      rw [Resolution.dependent_comm] at hdependent
      have hafter := hsub' (hkept hdd hee (hsub (sublist_pair_of_mem_right hrest)) hdependent)
        (by simp [hd', he'])
      exact absurd hafter (not_sublist_swap hnodup (sublist_pair_of_mem_left heq))

/-- What names stand for and where something is written does not depend on types. -/
theorem like_names (hsplit : p ++ d :: rest = bodies root)
    (hsplit' : q ++ d' :: rest' = bodies root') (hp : p ⊆ bodies root) (hq : q ⊆ bodies root')
    (hdd : (d, d') ∈ ps) : (visited root (p ++ [d])).Like
      (h.visitCorrespondence hp hq d ((visited root p).facts.bindings.length ≤ ·)) 1
        (visited root' (q ++ [d'])) :=
  h.like_visit hsplit hsplit' hp hq hdd _ (fun _ => Nat.le_add_right ..) fun hij hle =>
    absurd hij.lt (Nat.not_lt_of_le (Nat.le_trans (h.length_declared_le hp) hle))

/-- A declaration writes to a binding of the package just where its copy does. -/
theorem writtenIn_iff (hd : d ∈ bodies root) (hdd : (d, d') ∈ ps) (hij : Paired root root' ps i j) :
    (Resolution.ofFile root).WrittenIn d i ↔ (Resolution.ofFile root').WrittenIn d' j := by
  obtain ⟨p, rest, hsplit⟩ := List.append_of_mem hd
  obtain ⟨q, rest', hsplit'⟩ := List.append_of_mem ((h.mem_bodies_iff hdd).1 hd)
  have hpd : p ++ [d] ⊆ bodies root := hsplit ▸ by simp
  have hqd : q ++ [d'] ⊆ bodies root' := hsplit' ▸ by simp
  have hp := (List.append_subset.1 hpd).1
  have hq := (List.append_subset.1 hqd).1
  have hlike := h.like_names hsplit.symm hsplit'.symm hp hq hdd
  obtain ⟨b, b', hb, hb', -⟩ := h.exists_twins hp hq hij
  obtain ⟨c, c', hc, hc', -⟩ := h.exists_twins hpd hqd hij
  have hwrites := hlike.facts.writes (.inl hij)
  rw [hc, hc', Option.rel_some_some] at hwrites
  obtain ⟨late, late', hlate, hlate', hall⟩ := hwrites
  simp only [visitCorrespondence, correspondence, hb, hb', Option.map_some,
    Option.getD_some] at hlate hlate'
  rw [Resolver.writtenIn_iff h.wf h.names hsplit.symm hb hc, hlate,
    Resolver.writtenIn_iff h.wf' h.names' hsplit'.symm hb' hc', hlate', ne_eq, ne_eq,
    List.append_right_eq_self, List.append_right_eq_self, ← List.length_eq_zero_iff,
      ← List.length_eq_zero_iff,
    hall.length_eq]

/-- Where contents agree after visits of the same writers, they agree for what a declaration
mentions before the declaration is visited. -/
theorem sameContents_of_mentionedIn (hkept : KeepsOrder root root' ps)
    (hsplit : p ++ d :: rest = bodies root) (hsplit' : q ++ d' :: rest' = bodies root')
    (hdd : (d, d') ∈ ps)
    (hsame : (∀ {e e'}, e ∈ bodies root → (e, e') ∈ ps → (Resolution.ofFile root).WrittenIn e i →
        (e ∈ p ↔ e' ∈ q)) → Option.Rel (Binding.SameContents fun n n' => (n, n') ∈ ps)
      (visited root p).facts.bindings[i]? (visited root' q).facts.bindings[j]?)
    (hmention : (Resolution.ofFile root).mentionedIn d i = true) :
    Option.Rel (Binding.SameContents fun n n' => (n, n') ∈ ps)
      (visited root p).facts.bindings[i]? (visited root' q).facts.bindings[j]? := by
  refine hsame fun {e e'} he hee hwritten => ?_
  by_cases hne : e = d
  · subst hne
    obtain rfl := h.right_unique h.wf h.wf' hdd hee
    have hnodup : (p ++ e :: rest).Nodup := hsplit ▸ nodup_bodies h.wf
    have hnodup' : (q ++ d' :: rest').Nodup := hsplit' ▸ nodup_bodies h.wf'
    refine iff_of_false (fun hp => ?_) fun hq => ?_
    · exact (List.disjoint_of_nodup_append hnodup) hp (List.mem_cons_self ..)
    · exact (List.disjoint_of_nodup_append hnodup') hq (List.mem_cons_self ..)
  · refine h.mem_before_iff hkept hsplit hsplit' hdd he hee (Resolution.dependent_of_changedIn ?_
      (Resolution.changedIn_of_writtenIn hwritten) hmention) hne
    obtain ⟨b, hb, -⟩ := hwritten
    exact (List.getElem?_eq_some_iff.1 hb).1

omit h in
/-- The bindings whose types matter to the visit of a declaration: those that it declares or
mentions. -/
def Concerned (root : Node) (p : List Node) (d : Node) (i : Nat) : Prop :=
  (visited root p).facts.bindings.length ≤ i ∨ (Resolution.ofFile root).mentionedIn d i = true

/-- When the bindings that a declaration mentions have the same contents before it is visited, the
bindings that concern it have the same contents after. -/
theorem sameContents_visit (hsplit : p ++ d :: rest = bodies root)
    (hsplit' : q ++ d' :: rest' = bodies root') (hp : p ⊆ bodies root) (hq : q ⊆ bodies root')
    (hdd : (d, d') ∈ ps)
    (hsame : ∀ {i j}, Paired root root' ps i j → (Resolution.ofFile root).mentionedIn d i = true →
      Option.Rel (Binding.SameContents fun n n' => (n, n') ∈ ps) (visited root p).facts.bindings[i]?
        (visited root' q).facts.bindings[j]?)
    (hij : InStep root root' ps p q i j) (hconcerned : Concerned root p d i) :
    Option.Rel
      (fun b b' => Binding.Alike (h.visitCorrespondence hp hq d (Concerned root p d)) b b' ∧
        Binding.SameContents (fun n n' => (n, n') ∈ ps) b b')
      (visited root (p ++ [d])).facts.bindings[i]?
      (visited root' (q ++ [d'])).facts.bindings[j]? := by
  have hlength := h.length_declared_le hp
  -- the two visits take the same steps, since all that `d` mentions has the same contents before
  have hlike := h.like_visit hsplit hsplit' hp hq hdd (Concerned root p d)
    (fun k => .inl (Nat.le_add_right ..)) fun hij hconcerned => by
      obtain hle | hmention := hconcerned
      · exact absurd hij.lt (Nat.not_lt_of_le (Nat.le_trans hlength hle))
      · exact rel_mono (hsame hij hmention) fun _ _ hcontents => hcontents.type
  have hall : p ++ [d] ++ rest = bodies root := by rw [← hsplit, List.append_assoc]; rfl
  -- what is used in `d` is mentioned there
  have hcovers : (h.visitCorrespondence hp hq d (Concerned root p d)).Covers
      (visited root (p ++ [d])).facts := by
    intro n n' k hN hmem
    refine .inr (Resolution.mentionedIn_iff.2 ⟨n, by simpa using hN.2, ?_⟩)
    have hwithin :=
      within_visited h.wf h.names (hall ▸ List.subset_append_left .. : p ++ [d] ⊆ bodies root)
        (hall ▸ List.subset_append_right .. : rest ⊆ bodies root)
    rw [ofFile_eq_visited, ← hall]
    exact hwithin.uses hmem
  have htypes := hlike.facts.types hcovers hij hconcerned
  have hwrites := hlike.facts.writes hij
  obtain ⟨hb, hb'⟩ | ⟨b, b', hb, hb', halike⟩ := rel_cases (hlike.facts.bindings hij)
  · rw [hb, hb']
    exact .none
  rw [hb, hb', Option.rel_some_some] at htypes hwrites
  obtain ⟨late, late', hlate, hlate', hlates⟩ := hwrites
  rw [hb, hb']
  refine .some ⟨halike, htypes, ?_⟩
  rw [hlate, hlate']
  refine List.rel_append ?_ hlates
  simp only [visitCorrespondence, correspondence]
  -- before the visits: a binding of the package has its writes, a new one has none
  obtain hij | ⟨k, rfl, rfl⟩ := hij
  · obtain hle | hmention := hconcerned
    · exact absurd hij.lt (Nat.not_lt_of_le (Nat.le_trans hlength hle))
    · obtain ⟨hc, hc'⟩ | ⟨c, c', hc, hc', hcontents⟩ := rel_cases (hsame hij hmention)
      · rw [hc, hc']
        exact .nil
      · rw [hc, hc']
        exact hcontents.writes
  · rw [List.getElem?_eq_none (Nat.le_add_right ..), List.getElem?_eq_none (Nat.le_add_right ..)]
    exact .nil

/-- What writes to a binding in the second file is a copy of what writes to it in the first. -/
theorem exists_writer {e' : Node} (hij : Paired root root' ps i j) (he' : e' ∈ bodies root')
    (hwritten : (Resolution.ofFile root').WrittenIn e' j) :
    ∃ e ∈ bodies root, (e, e') ∈ ps ∧ (Resolution.ofFile root).WrittenIn e i := by
  obtain ⟨e, -, hee⟩ := h.exists_part_left (List.mem_of_mem_filter he')
  have he := (h.mem_bodies_iff hee).2 he'
  exact ⟨e, he, hee, (h.writtenIn_iff he hee hij).2 hwritten⟩

omit h in
/-- Bindings of the package have the same contents before anything is visited. -/
theorem Paired.sameContents (hij : Paired root root' ps i j) :
    Option.Rel (Binding.SameContents fun n n' => (n, n') ∈ ps)
      (visited root []).facts.bindings[i]? (visited root' []).facts.bindings[j]? := by
  obtain ⟨b, b', hb, hb', htwins⟩ := hij
  have hnil := (unwritten_of_mem_declared (List.mem_of_getElem? hb)).2
  have hnil' := (unwritten_of_mem_declared (List.mem_of_getElem? hb')).2
  change Option.Rel _ (declared root).facts.bindings[i]? (declared root').facts.bindings[j]?
  rw [hb, hb']
  exact .some ⟨htwins.type, by rw [hnil, hnil']; exact .nil⟩

/-- Bindings keep the same contents through visits of declarations that do not write to them. -/
theorem sameContents_append {later later' : List Node} (hp : p ++ later ++ rest = bodies root)
    (hq : q ++ later' ++ rest' = bodies root') (hij : Paired root root' ps i j)
    (hlater : ∀ e ∈ later, ¬ (Resolution.ofFile root).WrittenIn e i)
    (hlater' : ∀ e' ∈ later', ¬ (Resolution.ofFile root').WrittenIn e' j)
    (hsame : Option.Rel (Binding.SameContents fun n n' => (n, n') ∈ ps)
      (visited root p).facts.bindings[i]? (visited root' q).facts.bindings[j]?) :
    Option.Rel (Binding.SameContents fun n n' => (n, n') ∈ ps)
      (visited root (p ++ later)).facts.bindings[i]?
        (visited root' (q ++ later')).facts.bindings[j]? := by
  obtain ⟨b, b', hb, hb', -⟩ := h.exists_twins (hp ▸ by simp : p ⊆ bodies root)
    (hq ▸ by simp : q ⊆ bodies root') hij
  rw [hb, hb', Option.rel_some_some] at hsame
  obtain ⟨c, hc, -, hcw, hct⟩ := contents_visited h.wf h.names hp hb hlater
  obtain ⟨c', hc', -, hcw', hct'⟩ := contents_visited h.wf' h.names' hq hb' hlater'
  rw [hc, hc']
  exact .some ⟨by rw [hct, hct', hsame.type], by rw [hcw, hcw']; exact hsame.writes⟩

/-- When nothing writes to a binding after a declaration that mentions it, nothing does after its
copy. -/
theorem not_writtenIn_later {later later' : List Node} (hkept : KeepsOrder root root' ps)
    (hsplit : p ++ d :: (later ++ rest) = bodies root)
    (hsplit' : q ++ d' :: (later' ++ rest') = bodies root') (hdd : (d, d') ∈ ps)
    (hij : Paired root root' ps i j) (hmention : (Resolution.ofFile root).mentionedIn d i = true)
    (hlater : ∀ e ∈ later, ¬ (Resolution.ofFile root).WrittenIn e i)
    (hwriters : ∀ {e e'}, e ∈ bodies root → (e, e') ∈ ps → (Resolution.ofFile root).WrittenIn e i →
      (e ∈ p ++ d :: later ↔ e' ∈ q ++ d' :: later')) :
    ∀ e' ∈ later', ¬ (Resolution.ofFile root').WrittenIn e' j := by
  intro e' he' hwritten'
  obtain ⟨e, hebody, hee, hwritten⟩ := h.exists_writer hij (hsplit' ▸ by simp [he']) hwritten'
  have hnodup' : (q ++ d' :: (later' ++ rest')).Nodup := hsplit' ▸ nodup_bodies h.wf'
  have hne : e ≠ d := by
    rintro rfl
    obtain rfl := h.right_unique h.wf h.wf' hdd hee
    exact (List.nodup_cons.1 (List.nodup_append.1 hnodup').2.1).1 (List.mem_append_left _ he')
  have hep : e ∈ p := by
    obtain hep | hep := List.mem_append.1 ((hwriters hebody hee hwritten).2 (by simp [he']))
    · exact hep
    · exact absurd hwritten (hlater e ((List.mem_cons.1 hep).resolve_left hne))
  have hdependent : (Resolution.ofFile root).dependent e d = true :=
    Resolution.dependent_of_changedIn
      (Nat.lt_of_lt_of_le hij.lt (h.length_declared_le (List.Subset.refl _)))
      (Resolution.changedIn_of_writtenIn hwritten) hmention
  have heq : e' ∈ q := (h.mem_before_iff hkept hsplit hsplit' hdd hebody hee hdependent hne).1 hep
  exact List.disjoint_of_nodup_append hnodup' heq (by simp [he'])

/-- Bindings of the package have the same contents after visits of the declarations that write to
them. -/
theorem sameContents (hkept : KeepsOrder root root' ps) (hp : p ++ rest = bodies root)
    (hq : q ++ rest' = bodies root') (hij : Paired root root' ps i j)
    (hwriters : ∀ {e e'}, e ∈ bodies root → (e, e') ∈ ps → (Resolution.ofFile root).WrittenIn e i →
      (e ∈ p ↔ e' ∈ q)) :
    Option.Rel (Binding.SameContents fun n n' => (n, n') ∈ ps)
      (visited root p).facts.bindings[i]? (visited root' q).facts.bindings[j]? := by
  -- by induction on the number of visits, from the last declaration that writes to the binding
  induction hlength : p.length using Nat.strong_induction_on generalizing p q rest rest' i j with
  | _ m ih =>
    by_cases hwritten : ∃ e ∈ p, (Resolution.ofFile root).WrittenIn e i
    · obtain ⟨p, d, later, rfl, hd, hlater⟩ := exists_last hwritten
      have hsplit : p ++ d :: (later ++ rest) = bodies root := by rw [← hp, List.append_assoc]; rfl
      have hdbody : d ∈ bodies root := hsplit ▸ by simp
      obtain ⟨d', -, hdd⟩ := h.exists_part_right (List.mem_of_mem_filter hdbody)
      obtain ⟨q, later', rfl⟩ := List.append_of_mem ((hwriters hdbody hdd hd).1 (by simp))
      have hsplit' : q ++ d' :: (later' ++ rest') = bodies root' := by
        rw [← hq, List.append_assoc]
        rfl
      have hbefore : ∀ {i j}, Paired root root' ps i j →
          (Resolution.ofFile root).mentionedIn d i = true →
            Option.Rel (Binding.SameContents fun n n' => (n, n') ∈ ps)
              (visited root p).facts.bindings[i]? (visited root' q).facts.bindings[j]? := fun hij =>
        h.sameContents_of_mentionedIn hkept hsplit hsplit' hdd fun hwriters =>
          ih p.length (by rw [← hlength]; simp) hsplit hsplit' hij hwriters rfl
      have hmention : (Resolution.ofFile root).mentionedIn d i = true :=
        Resolution.mentionedIn_iff.2 (mention_of_writtenIn h.wf h.names hdbody hd)
      have hlater' := h.not_writtenIn_later hkept hsplit hsplit' hdd hij hmention hlater hwriters
      have hvisit := h.sameContents_visit hsplit hsplit' (hsplit ▸ List.subset_append_left ..)
        (hsplit' ▸ List.subset_append_left ..) hdd hbefore (.inl hij) (.inr hmention)
      rw [List.append_cons p] at hp ⊢
      rw [List.append_cons q] at hq ⊢
      exact h.sameContents_append hp hq hij hlater hlater'
        (rel_mono hvisit fun _ _ hsame => hsame.2)
    · have hunwritten : ∀ e ∈ p, ¬ (Resolution.ofFile root).WrittenIn e i :=
        fun e he hw => hwritten ⟨e, he, hw⟩
      have hunwritten' : ∀ e' ∈ q, ¬ (Resolution.ofFile root').WrittenIn e' j := by
        intro e' he' hwritten'
        obtain ⟨e, hebody, hee, hw⟩ := h.exists_writer hij (hq ▸ by simp [he']) hwritten'
        exact hwritten ⟨e, (hwriters hebody hee hw).2 he', hw⟩
      exact h.sameContents_append (p := []) (q := []) hp hq hij hunwritten hunwritten'
        hij.sameContents

omit h in
/-- Numbers of bindings that are declared by a node and its copy. -/
def Numbered (root root' : Node) (ps : List (Node × Node)) (i j : Nat) : Prop :=
  ∃ b b', (Resolution.ofFile root).bindings[i]? = some b ∧
    (Resolution.ofFile root').bindings[j]? = some b' ∧ (b.decl, b'.decl) ∈ ps

/-- Corresponding numbers are equal at the same time. -/
theorem Numbered.eq_iff {i' j' : Nat} (hi : Numbered root root' ps i i')
    (hj : Numbered root root' ps j j') : i = j ↔ i' = j' := by
  obtain ⟨b, b', hb, hb', hdecl⟩ := hi
  obtain ⟨c, c', hc, hc', hdecl'⟩ := hj
  constructor
  · rintro rfl
    obtain rfl := Option.some.inj (hb.symm.trans hc)
    exact number_eq_of_decl (sound_visited h.wf' (List.Sublist.refl _)) hb' hc'
      (h.right_unique h.wf h.wf' hdecl hdecl')
  · rintro rfl
    obtain rfl := Option.some.inj (hb'.symm.trans hc')
    exact number_eq_of_decl (sound_visited h.wf (List.Sublist.refl _)) hb hc
      (h.left_unique h.wf h.wf' hdecl hdecl')

omit h in
def fileCorrespondence (h : Rearranged root root' ps) : Correspondence root root' :=
  h.correspondence root.parts (Numbered root root' ps) (fun hi hj => hi.eq_iff h hj) (fun _ => True)
    (fun _ => []) fun _ => []

omit h in
def Agree (h : Rearranged root root' ps) (b b' : Binding) : Prop :=
  Binding.Alike h.fileCorrespondence b b' ∧ Binding.SameContents (fun n n' => (n, n') ∈ ps) b b'

theorem agree_of_paired (hkept : KeepsOrder root root' ps) (hij : Paired root root' ps i j) :
    ∃ b b', (Resolution.ofFile root).bindings[i]? = some b ∧
      (Resolution.ofFile root').bindings[j]? = some b' ∧
      h.Agree b b' := by
  have hsame := h.sameContents hkept (List.append_nil _) (List.append_nil _) hij fun he hee _ =>
    iff_of_true he ((h.mem_bodies_iff hee).1 he)
  obtain ⟨b, b', hb, hb', hname, hkind, hdecl, hscope, hscope'⟩ :=
    h.exists_twins (List.Subset.refl _) (List.Subset.refl _) hij
  rw [hb, hb', Option.rel_some_some] at hsame
  exact ⟨b, b', hb, hb', ⟨hname, hkind, hdecl, trivial, .inr ⟨hscope, hscope'⟩⟩, hsame⟩

/-- The bindings that visits of a declaration and its copy add. -/
theorem agree_of_added (hkept : KeepsOrder root root' ps) (hsplit : p ++ d :: rest = bodies root)
    (hsplit' : q ++ d' :: rest' = bodies root') (hdd : (d, d') ∈ ps) (k : Nat) :
    Option.Rel h.Agree
      (visited root (p ++ [d])).facts.bindings[(visited root p).facts.bindings.length + k]?
      (visited root' (q ++ [d'])).facts.bindings[(visited root' q).facts.bindings.length + k]? := by
  have hp : p ⊆ bodies root := hsplit ▸ List.subset_append_left ..
  have hq : q ⊆ bodies root' := hsplit' ▸ List.subset_append_left ..
  have hvisit := h.sameContents_visit (i := (visited root p).facts.bindings.length + k) hsplit
    hsplit' hp hq hdd
      (fun hij => h.sameContents_of_mentionedIn hkept hsplit hsplit' hdd
        (h.sameContents hkept hsplit hsplit' hij))
    (.inr ⟨k, rfl, rfl⟩) (.inl (Nat.le_add_right ..))
  exact rel_mono hvisit fun b b' hagree =>
    ⟨⟨hagree.1.name, hagree.1.kind, hagree.1.decl, trivial, hagree.1.scope⟩, hagree.2⟩

theorem Agree.of_contents {c c' : Binding} (hagree : h.Agree b b') (hview : c.view = b.view)
    (hview' : c'.view = b'.view) (hwrites : c.writes = b.writes) (hwrites' : c'.writes = b'.writes)
    (htype : c.type = b.type) (htype' : c'.type = b'.type) : h.Agree c c' := by
  have hname : c.name = b.name := congrArg Binding.View.name hview
  have hname' : c'.name = b'.name := congrArg Binding.View.name hview'
  have hkind : c.kind = b.kind := congrArg Binding.View.kind hview
  have hkind' : c'.kind = b'.kind := congrArg Binding.View.kind hview'
  have hdecl : c.decl = b.decl := congrArg Binding.View.decl hview
  have hdecl' : c'.decl = b'.decl := congrArg Binding.View.decl hview'
  have hscope : c.scope = b.scope := congrArg Binding.View.scope hview
  have hscope' : c'.scope = b'.scope := congrArg Binding.View.scope hview'
  refine ⟨⟨?_, ?_, ?_, trivial, ?_⟩, ?_, ?_⟩
  · rw [hname, hname', hagree.1.name]
  · rw [hkind, hkind']
    exact hagree.1.kind
  · rw [hdecl, hdecl']
    exact hagree.1.decl
  · rw [hscope, hscope']
    exact hagree.1.scope
  · rw [htype, htype', hagree.2.type]
  · rw [hwrites, hwrites']
    exact hagree.2.writes

/-- What a visit adds to one file agrees with what the visit of the copy adds to the other. -/
theorem exists_agree_added (hkept : KeepsOrder root root' ps)
    (hsplit : p ++ d :: rest = bodies root) (hsplit' : q ++ d' :: rest' = bodies root')
    (hdd : (d, d') ∈ ps) {k : Nat}
    (hk : (visited root p).facts.bindings.length + k <
      (visited root (p ++ [d])).facts.bindings.length ∨ (visited root' q).facts.bindings.length +
        k < (visited root' (q ++ [d'])).facts.bindings.length) :
    ∃ b b', (Resolution.ofFile root).bindings[(visited root p).facts.bindings.length + k]? =
      some b ∧ (Resolution.ofFile root').bindings[(visited root' q).facts.bindings.length + k]? =
        some b' ∧ h.Agree b b' := by
  obtain ⟨hb, hb'⟩ | ⟨b, b', hb, hb', hagree⟩ :=
    rel_cases (h.agree_of_added hkept hsplit hsplit' hdd k)
  · rw [List.getElem?_eq_none_iff] at hb hb'
    omega
  · obtain ⟨c, hc, hview, hwrites, htype⟩ :=
      contents_of_added h.wf h.names hsplit (Nat.le_add_right ..) hb
    obtain ⟨c', hc', hview', hwrites', htype'⟩ :=
      contents_of_added h.wf' h.names' hsplit' (Nat.le_add_right ..) hb'
    exact ⟨c, c', hc, hc', hagree.of_contents h hview hview' hwrites hwrites' htype htype'⟩

/-- Every binding has a counterpart. -/
theorem exists_agree_right (hkept : KeepsOrder root root' ps)
    (hi : i < (Resolution.ofFile root).bindings.length) :
    ∃ (j : Nat) (b b' : Binding), (Resolution.ofFile root).bindings[i]? = some b ∧
      (Resolution.ofFile root').bindings[j]? = some b' ∧ h.Agree b b' := by
  by_cases hdeclared : i < (declared root).facts.bindings.length
  · obtain ⟨j, b', hb', htwins⟩ := h.exists_declared_right (List.getElem?_eq_getElem hdeclared)
    exact ⟨j, h.agree_of_paired hkept ⟨_, b', List.getElem?_eq_getElem hdeclared, hb', htwins⟩⟩
  · obtain ⟨p, d, rest, hsplit, hle, hlt⟩ := exists_visit (Nat.le_of_not_lt hdeclared) hi
    have hd : d ∈ bodies root := hsplit ▸ by simp
    obtain ⟨d', -, hdd⟩ := h.exists_part_right (List.mem_of_mem_filter hd)
    obtain ⟨q, rest', hsplit'⟩ := List.append_of_mem ((h.mem_bodies_iff hdd).1 hd)
    obtain ⟨k, rfl⟩ := Nat.exists_eq_add_of_le hle
    exact ⟨_, h.exists_agree_added hkept hsplit hsplit'.symm hdd (.inl hlt)⟩

/-- Every binding is a counterpart. -/
theorem exists_agree_left (hkept : KeepsOrder root root' ps)
    (hj : j < (Resolution.ofFile root').bindings.length) :
    ∃ (i : Nat) (b b' : Binding), (Resolution.ofFile root).bindings[i]? = some b ∧
      (Resolution.ofFile root').bindings[j]? = some b' ∧ h.Agree b b' := by
  by_cases hdeclared : j < (declared root').facts.bindings.length
  · obtain ⟨i, b, hb, htwins⟩ := h.exists_declared_left (List.getElem?_eq_getElem hdeclared)
    exact ⟨i, h.agree_of_paired hkept ⟨b, _, hb, List.getElem?_eq_getElem hdeclared, htwins⟩⟩
  · obtain ⟨q, d', rest', hsplit', hle, hlt⟩ := exists_visit (Nat.le_of_not_lt hdeclared) hj
    have hd' : d' ∈ bodies root' := hsplit' ▸ by simp
    obtain ⟨d, -, hdd⟩ := h.exists_part_left (List.mem_of_mem_filter hd')
    obtain ⟨p, rest, hsplit⟩ := List.append_of_mem ((h.mem_bodies_iff hdd).2 hd')
    obtain ⟨k, rfl⟩ := Nat.exists_eq_add_of_le hle
    exact ⟨_, h.exists_agree_added hkept hsplit.symm hsplit' hdd (.inr hlt)⟩

/-- Bindings that a node and its copy declare agree. -/
theorem agree (hkept : KeepsOrder root root' ps) (hij : Numbered root root' ps i j) :
    Option.Rel h.Agree (Resolution.ofFile root).bindings[i]?
      (Resolution.ofFile root').bindings[j]? := by
  have hij' := hij
  obtain ⟨b, b', hb, hb', -⟩ := hij
  obtain ⟨k, c, c', hc, hc', hagree⟩ :=
    h.exists_agree_right hkept (List.getElem?_eq_some_iff.1 hb).1
  obtain rfl := (hij'.eq_iff h ⟨c, c', hc, hc', hagree.1.decl⟩).1 rfl
  rw [hc, hc']
  exact .some hagree

/-- There are as many bindings in both files. -/
theorem length_eq (hkept : KeepsOrder root root' ps) :
    (Resolution.ofFile root').bindings.length = (Resolution.ofFile root).bindings.length := by
  have hright : ∀ i : Fin (Resolution.ofFile root).bindings.length,
      ∃ j : Fin (Resolution.ofFile root').bindings.length, Numbered root root' ps i j := fun i => by
    obtain ⟨j, b, b', hb, hb', hagree⟩ := h.exists_agree_right hkept i.2
    exact ⟨⟨j, (List.getElem?_eq_some_iff.1 hb').1⟩, b, b', hb, hb', hagree.1.decl⟩
  have hleft : ∀ j : Fin (Resolution.ofFile root').bindings.length,
      ∃ i : Fin (Resolution.ofFile root).bindings.length, Numbered root root' ps i j := fun j => by
    obtain ⟨i, b, b', hb, hb', hagree⟩ := h.exists_agree_left hkept j.2
    exact ⟨⟨i, (List.getElem?_eq_some_iff.1 hb).1⟩, b, b', hb, hb', hagree.1.decl⟩
  choose f hf using hright
  choose g hg using hleft
  refine Nat.le_antisymm ?_ ?_
  · have hinj : Function.Injective g := fun j j' hjj =>
      Fin.ext (((hg j).eq_iff h (hg j')).1 (congrArg Fin.val hjj))
    simpa using Fintype.card_le_of_injective g hinj
  · have hinj : Function.Injective f := fun i i' hii =>
      Fin.ext (((hf i).eq_iff h (hf i')).2 (congrArg Fin.val hii))
    simpa using Fintype.card_le_of_injective f hinj

/-! ### Names -/

theorem numbered_of_paired (hij : Paired root root' ps i j) : Numbered root root' ps i j := by
  obtain ⟨b, b', hb, hb', -, -, hdecl, -⟩ :=
    h.exists_twins (List.Subset.refl _) (List.Subset.refl _) hij
  exact ⟨b, b', hb, hb', hdecl⟩

/-- What a node and its copy stand for. -/
theorem useOf (hkept : KeepsOrder root root' ps) (hp : (n, n') ∈ ps) :
    Option.Rel (Numbered root root' ps)
    ((Resolution.ofFile root).useOf n) ((Resolution.ofFile root').useOf n') := by
  obtain ⟨d, hd, d', hd', hdd, hn, hn', -⟩ := h.exists_declaration hp
  -- only functions, variables and constants are visited in the second round
  cases hbody : hasBody d with
  | false =>
    have hbody' : hasBody d' = false := by rw [hasBody, h.kind hdd, ← hasBody, hbody]
    rw [useOf_of_not_body h.wf hd hbody hn, useOf_of_not_body h.wf' hd' hbody' hn']
    exact rel_mono (h.useOf_declared hp) fun _ _ hij => h.numbered_of_paired hij
  | true =>
    have hmem : d ∈ bodies root := List.mem_filter.2 ⟨hd, hbody⟩
    obtain ⟨p, rest, hsplit⟩ := List.append_of_mem hmem
    obtain ⟨q, rest', hsplit'⟩ := List.append_of_mem ((h.mem_bodies_iff hdd).1 hmem)
    have hps : p ⊆ bodies root := hsplit ▸ List.subset_append_left ..
    have hqs : q ⊆ bodies root' := hsplit' ▸ List.subset_append_left ..
    have hlike := h.like_names hsplit.symm hsplit'.symm hps hqs hdd
    rw [useOf_ofFile h.wf hsplit.symm hn, useOf_ofFile h.wf' hsplit'.symm hn']
    obtain ⟨hu, hu'⟩ | ⟨i, j, hu, hu', hij⟩ := rel_cases (hlike.facts.uses ⟨hp, by simpa using hn⟩)
    · rw [hu, hu']
      exact .none
    · rw [hu, hu']
      refine .some ?_
      -- the binding is one of the package, or the visit of `d` has added it
      obtain hij | ⟨k, rfl, rfl⟩ := hij
      · exact h.numbered_of_paired hij
      · have hsub : (p ++ [d]).Sublist (bodies root) := by
          rw [hsplit]
          exact (List.singleton_sublist.2 (List.mem_cons_self ..)).append_left p
        obtain ⟨v, hv⟩ := (sound_visited h.wf hsub).view_of_useOf hu
        have hlt := (List.getElem?_eq_some_iff.1 hv).1
        rw [views, List.length_map] at hlt
        obtain ⟨b, b', hb, hb', hagree⟩ :=
          h.exists_agree_added hkept hsplit.symm hsplit'.symm hdd (.inl hlt)
        exact ⟨b, b', hb, hb', hagree.1.decl⟩

/-- A blank name stands for a binding only as the name of a function. -/
theorem isTitle_of_useOf (hp : (n, n') ∈ ps) (huse : (Resolution.ofFile root).useOf n = some i)
    (htext : n.text = "_") : IsTitle root n := by
  obtain ⟨d, hd, d', hd', hdd, hn, -⟩ := h.exists_declaration hp
  cases hbody : hasBody d with
  | false =>
    rw [useOf_of_not_body h.wf hd hbody hn] at huse
    exact h.isTitle_of_declared (preorder_of_inner (h.mem_left hp)) huse htext
  | true =>
    have hmem : d ∈ bodies root := List.mem_filter.2 ⟨hd, hbody⟩
    obtain ⟨p, rest, hsplit⟩ := List.append_of_mem hmem
    obtain ⟨q, rest', hsplit'⟩ := List.append_of_mem ((h.mem_bodies_iff hdd).1 hmem)
    have hlike := h.like_names hsplit.symm hsplit'.symm (hsplit ▸ List.subset_append_left ..)
      (hsplit' ▸ List.subset_append_left ..) hdd
    rw [useOf_ofFile h.wf hsplit.symm hn] at huse
    exact hlike.facts.blank ⟨hp, by simpa using hn⟩ huse htext

/-- A file and a reordering of it are resolved alike. -/
theorem like (hkept : KeepsOrder root root' ps) :
    (Resolution.ofFile root).Like h.fileCorrespondence (Resolution.ofFile root') := by
  have hwithin := within_declared h.wf h.names (List.Subset.refl _)
  have hwithin' := within_declared h.wf' h.names' (List.Subset.refl _)
  exact
    { root_eq := hwithin.root_eq.trans (sound_declared h.wf).root_eq
      root_eq' := hwithin'.root_eq.trans (sound_declared h.wf').root_eq
      imports := by
        rw [ofFile_eq_visited, ofFile_eq_visited, hwithin.imports, hwithin'.imports,
          imports_declared, imports_declared, h.imports_eq]
      results := fun hname => by
        rw [ofFile_eq_visited, ofFile_eq_visited, hwithin.results, hwithin'.results,
          h.results_declared hname]
      fieldTypes := fun key => by
        rw [ofFile_eq_visited, ofFile_eq_visited, hwithin.fieldTypes, hwithin'.fieldTypes,
          h.fieldTypes_declared]
      uses := fun hN => h.useOf hkept hN.1
      bindings := fun hij => rel_mono (h.agree hkept hij) fun _ _ hagree => hagree.1
      writes := fun hij => rel_mono (h.agree hkept hij) fun b b' hagree =>
        ⟨b.writes, b'.writes, rfl, rfl, hagree.2.writes⟩
      types := fun _ hij _ => rel_mono (h.agree hkept hij) fun _ _ hagree => hagree.2.type
      blank := fun hN huse htext => h.isTitle_of_useOf hN.1 huse htext }

end Rearranged

end Handoff

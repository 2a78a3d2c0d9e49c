import Handoff.Proofs.Closure.Replica
import Handoff.Proofs.Verdict.Mirrors
import Handoff.Proofs.Verdict.Reaching

/-!
# Verdicts on files that repeat one another

One file repeats another when the counterparts of its nodes mean the same, and what is written to a
variable reaches a name in the one file just where it reaches the counterpart of the name in the
other. Then a search comes by counterparts, step by step, and gives one answer; and the capture
graphs of the two files agree.

## Main definitions

* `Resolution.IsSupply`: a node gives a value to a binding, or to a field or an element of it.
* `Resolution.Repeats`: one file repeats another.

## Main statements

* `Resolution.Repeats.search`: searches for counterparts give one answer.
* `Resolution.Repeats.traceCapture`, `Resolution.Repeats.traceOutcome`: the graphs give one verdict.
-/

namespace Handoff

open Syntax Node

/-! ### Related lists of supplies -/

section Lists

variable {α β : Type} {R : α → β → Prop}

/-- Sorting related lists by orders that agree gives related lists. -/
theorem rel_sorted {le : α → α → Bool} {le' : β → β → Bool} {l : List α} {l' : List β}
    (h : List.Forall₂ R l l') (hle : ∀ {a a' b b'}, R a a' → R b b' → le' a' b' = le a b) :
    List.Forall₂ R (sorted le l) (sorted le' l') := by
  have hinsert : ∀ {a a' k k'}, R a a' → List.Forall₂ R k k' →
      List.Forall₂ R (insertSorted le a k) (insertSorted le' a' k') := by
    intro a a' k k' ha hk
    induction hk with
    | nil => exact .cons ha .nil
    | cons hb hk ih =>
      rw [insertSorted, insertSorted, hle ha hb]
      split
      · exact .cons ha (.cons hb hk)
      · exact .cons hb ih
  induction h with
  | nil => exact .nil
  | cons ha _ ih => simpa using hinsert ha ih

theorem rel_concat_iff {l : List α} {a : α} {l' : List β} :
    List.Forall₂ R (l ++ [a]) l' ↔ ∃ k b, l' = k ++ [b] ∧ List.Forall₂ R l k ∧ R a b := by
  constructor
  · intro h
    obtain ⟨b, k, hab, hk, hl'⟩ := List.forall₂_cons_left_iff.1
      (by simpa using List.rel_reverse h : List.Forall₂ R (a :: l.reverse) l'.reverse)
    refine ⟨k.reverse, b, by simpa using congrArg List.reverse hl', ?_, hab⟩
    simpa using List.rel_reverse hk
  · rintro ⟨k, b, rfl, hk, hab⟩
    exact List.rel_append hk (.cons hab .nil)

theorem map_eq_of_rel {γ : Type} {f : α → γ} {g : β → γ} {l : List α} {l' : List β}
    (h : List.Forall₂ R l l') (hfg : ∀ x y, x ∈ l → R x y → g y = f x) : l'.map g = l.map f := by
  induction h with
  | nil => rfl
  | cons hxy _ ih =>
    rw [List.map_cons, List.map_cons, hfg _ _ (List.mem_cons_self ..) hxy,
      ih fun x y hx => hfg x y (List.mem_cons_of_mem _ hx)]

theorem rel_fromLast {p : α → Bool} {q : β → Bool} {l : List α} {l' : List β}
    (h : List.Forall₂ R l l') (hpq : ∀ {a b}, R a b → q b = p a) :
    List.Forall₂ R (Search.fromLast p l) (Search.fromLast q l') := by
  induction l using List.reverseRecOn generalizing l' with
  | nil =>
    cases h
    exact .nil
  | append_singleton l a ih =>
    obtain ⟨k, b, rfl, hk, hab⟩ := rel_concat_iff.1 h
    rw [Search.fromLast_concat, Search.fromLast_concat, hpq hab]
    split
    · exact .cons hab .nil
    · exact List.rel_append (ih hk) (.cons hab .nil)

theorem rel_zip {γ δ : Type} {S : γ → δ → Prop} {l : List α} {l' : List β} {k : List γ}
    {k' : List δ} (h : List.Forall₂ R l l') (hk : List.Forall₂ S k k') :
    List.Forall₂ (fun p p' => R p.1 p'.1 ∧ S p.2 p'.2) (l.zip k) (l'.zip k') := by
  induction h generalizing k k' with
  | nil => simp
  | cons hab _ ih =>
    cases hk with
    | nil => exact .nil
    | cons hcd hk => exact .cons ⟨hab, hcd⟩ (ih hk)

end Lists

namespace Search

structure Supply.Alike (N : Node → Node → Prop) (s s' : Supply) : Prop where
  site : N s.site s'.site
  value : Option.Rel N s.value s'.value
  conditional : s'.conditional = s.conditional
  accumulates : s'.accumulates = s.accumulates

/-- Which expressions are read at which sites: those in a site, and those in an expression that is
read there. -/
structure Reading (readAt : Node → Node → Prop) : Prop where
  of_mem {expr site : Node} : expr ∈ site.preorder → readAt expr site
  trans {outer expr site : Node} : readAt outer site → expr ∈ outer.preorder → readAt expr site

variable {N : Node → Node → Prop} {supplies supplies' : List Supply} {site site' : Node}

/-- Where writes stand in the same order, and before or after a site alike, counterparts reach
it. -/
theorem reaching_alike (h : List.Forall₂ (Supply.Alike N) supplies supplies')
    (horder : ∀ {s s' t t'}, s ∈ supplies → t ∈ supplies → N s.site s' → N t.site t' →
      (s'.start ≤ t'.start ↔ s.site.start ≤ t.site.start))
    (hreaches : ∀ {s s'}, s ∈ supplies → N s.site s' →
      (s'.start < site'.start ↔ s.site.start < site.start) ∧
        s'.encloses site' = s.site.encloses site) :
    List.Forall₂ (Supply.Alike N) (reaching supplies site) (reaching supplies' site') := by
  have hall := rel_of_mem h
  have hbefore :=
    List.rel_filter
        (p := fun s : Supply => decide (s.site.start < site.start) && !s.site.encloses site)
        (q := fun s : Supply => decide (s.site.start < site'.start) && !s.site.encloses site')
        (fun s s' hs => by
      obtain ⟨hstart, hencloses⟩ := hreaches hs.2 hs.1.site
      simp [hstart, hencloses]) hall
  refine (rel_fromLast (rel_sorted hbefore fun hs ht => ?_) fun hs => ?_).imp fun _ _ hs => hs.1
  · simpa using horder hs.2 ht.2 hs.1.site ht.1.site
  · simp [Supply.replaces, hs.1.conditional, hs.1.accumulates]

end Search

/-- The writes of counterparts to a field or an element of a variable. -/
theorem Resolution.Mirrors.memberWritesAt {root root' n n' : Node} {M : Correspondence root root'}
    {r r' : Resolution} {i j : Nat} {b b' : Binding} {key key' : Search.Key} (h : r.Mirrors M r')
    (L : Replica M.node) (hkey : Search.Key.Alike M.node key key') (hij : M.number i j)
    (hscope : M.scope b.scope b'.scope) (hN : M.node n n') :
    List.Forall₂ (Search.Supply.Alike M.node) (Search.memberWritesAt r key i b n)
      (Search.memberWritesAt r' key' j b' n') := by
  unfold Search.memberWritesAt
  rw [L.kind hN]
  split
  · exact .nil
  obtain ⟨hl, hl'⟩ | ⟨left, left', hl, hl', hleft⟩ := rel_cases (L.likeness.child? hN .left)
  · simp [hl, hl']
  obtain ⟨hr, hr'⟩ | ⟨right, right', hr, hr', hright⟩ := rel_cases (L.likeness.child? hN .right)
  · simp [hl, hl', hr, hr']
  have htargets := L.likeness.expressions hleft
  have hvalues := L.likeness.expressions hright
  simp only [hl, hl', hr, hr', ← htargets.length_eq, ← hvalues.length_eq]
  split
  · exact .nil
  refine List.rel_filterMap (fun p p' hp => ?_) (rel_zip htargets hvalues)
  obtain ⟨htarget, hvalue⟩ := hp
  have hbare := L.likeness.bare htarget
  -- the target selects from the variable just when its counterpart does
  have hvariable : (((p'.1.bare.child? .operand).map Node.bare).any fun operand =>
        operand.kind == .identifier && r'.useOf operand == some j) =
      ((p.1.bare.child? .operand).map Node.bare).any fun operand =>
        operand.kind == .identifier && r.useOf operand == some i := by
    obtain ⟨ho, ho'⟩ | ⟨o, o', ho, ho', hoperand⟩ := rel_cases (L.likeness.child? hbare .operand)
    · simp [ho, ho']
    · have hname := L.likeness.bare hoperand
      obtain ⟨hu, hu'⟩ | ⟨k, k', hu, hu', hk⟩ := rel_cases (h.uses hname)
      · simp [ho, ho', hu, hu']
      · have hsame : (k' == j) = (k == i) := by
          rw [Bool.eq_iff_iff, beq_iff_eq, beq_iff_eq, M.numbers hk hij]
        simp [ho, ho', hu, hu', L.kind hname, hsame]
  rw [hvariable, Search.Key.isOf_replica L hkey hbare, h.root_eq, h.root_eq',
    M.conditional hN hscope]
  split
  · exact .some ⟨hN, .some hvalue, rfl, rfl⟩
  · exact .none

namespace Resolution

def IsSupply (r : Resolution) (i : Nat) (b : Binding) (site : Node) : Prop :=
  (∃ w ∈ b.writes, w.site = site) ∨ ∃ key, ∃ s ∈ Search.memberWrites r key i b, s.site = site

variable {root root' : Node}

/-- Resolutions of two files of which one repeats the other: counterparts mean the same, and where a
name is read at a site, writes reach it just where they reach its counterpart. -/
structure Repeats (M : Correspondence root root') (readAt : Node → Node → Prop)
    (r r' : Resolution) : Prop extends Mirrors M r r' where
  replica : Replica M.node
  reading : Search.Reading readAt
  grounded : r.Grounded
  grounded' : r'.Grounded
  mem' {n n' : Node} : M.node n n' → n' ∈ root'.preorder
  hasErrors : root'.hasErrors = root.hasErrors
  ancestors {n n' : Node} : M.node n n' →
    List.Forall₂ (fun a a' => M.node a a' ∨ a.kind.isFunction = false ∧ a'.kind.isFunction = false)
      (root.ancestors n) (root'.ancestors n')
  /-- What a function uses comes from outside it just where its counterpart does. -/
  isCaptured {f f' n : Node} {i j : Nat} : M.node f f' → n ∈ f.preorder → r.useOf n = some i →
    M.number i j → FunctionUnit.isCaptured r' f' j = FunctionUnit.isCaptured r f i
  /-- What is written to a binding is written in the same order. -/
  start_le {i : Nat} {b : Binding} {s s' t t' : Node} : r.bindings[i]? = some b → r.IsSupply i b s →
    r.IsSupply i b t → M.node s s' → M.node t t' → (s'.start ≤ t'.start ↔ s.start ≤ t.start)
  /-- What is written to a binding stands before a name, or around it, just where its counterpart
  does. -/
  reaches {i : Nat} {b : Binding} {n s s' t t' : Node} : r.bindings[i]? = some b →
    r.IsSupply i b s → readAt n t → n.kind = .identifier → r.useOf n = some i →
      M.node s s' → M.node t t' →
    (s'.start < t'.start ↔ s.start < t.start) ∧ s'.encloses t' = s.encloses t
  memberWrites {i j : Nat} {b b' : Binding} {key key' : Search.Key} : M.number i j →
    r.bindings[i]? = some b → r'.bindings[j]? = some b' → Search.Key.Alike M.node key key' →
    List.Forall₂ (Search.Supply.Alike M.node) (Search.memberWrites r key i b)
      (Search.memberWrites r' key' j b')

end Resolution

namespace Search

/-! ### Steps of a search -/

variable {root root' : Node} {M : Correspondence root root'} {V : Type} [Verdict V]

def VisitedAlike (M : Correspondence root root') : List Nat → List Nat → Prop :=
  List.Forall₂ fun v v' => ∃ n n', M.node n n' ∧ n.id = v ∧ n'.id = v'

theorem VisitedAlike.contains {visited visited' : List Nat} {n n' : Node}
    (h : VisitedAlike M visited visited') (hN : M.node n n') : visited'.contains n'.id =
      visited.contains n.id := by
  induction h with
  | nil => rfl
  | cons hv _ ih =>
    obtain ⟨m, m', hm, rfl, rfl⟩ := hv
    have hids := M.ids hN hm
    rw [List.contains_cons, List.contains_cons, ih]
    congr 1
    rw [Bool.eq_iff_iff, beq_iff_eq, beq_iff_eq]
    exact hids.symm

def Agree (M : Correspondence root root') (readAt : Node → Node → Prop)
    (follow follow' : Node → Node → List Nat → V) : Prop :=
  ∀ ⦃expr expr' site site' visited visited'⦄, M.node expr expr' → M.node site site' →
    readAt expr site → VisitedAlike M visited visited' →
      follow' expr' site' visited' = follow expr site visited

end Search

structure ClosureTest.Agrees {root root' : Node} {V : Type} (M : Correspondence root root')
    (test test' : ClosureTest V) : Prop where
  function {f f' : Node} : M.node f f' → test'.function f' = test.function f
  factoryArguments {call call' : Node} : M.node call call' →
    test'.factoryArguments call' = test.factoryArguments call

namespace Resolution.Repeats

open Search

variable {root root' : Node} {M : Correspondence root root'} {readAt : Node → Node → Prop}
  {r r' : Resolution} {V : Type} [Verdict V]
  {n n' expr expr' site site' : Node} {visited visited' : List Nat} {i j : Nat} {b b' : Binding}

theorem mem_left (h : r.Repeats M readAt r') (hN : M.node n n') : n ∈ r.root.preorder := by
  rw [h.root_eq]
  exact M.mem hN

/-- What stands behind a name is a function of the file in both files or in none. -/
theorem declaration? (h : r.Repeats M readAt r') (hN : M.node n n') :
    Option.Rel M.node ((r.bindingOf n).bind fun p => p.2.kind.declaration?)
      ((r'.bindingOf n').bind fun p => p.2.kind.declaration?) := by
  obtain ⟨hb, hb'⟩ | ⟨i, b, j, b', hb, hb', -, halike, -⟩ := h.bindingOf_cases hN
  · simp [hb, hb']
  · have hkind := halike.kind
    simp only [hb, hb', Option.bind_some]
    generalize b.kind = kind, b'.kind = kind' at hkind
    cases hkind with
    | function hd => exact .some (h.node_of_content hd)
    | packageVariable | parameter | localVariable => exact .none

theorem isAppend (h : r.Repeats M readAt r') (hN : M.node n n') :
    isAppend r' n' = isAppend r n := by
  unfold Search.isAppend
  rw [h.replica.kind hN]
  obtain ⟨hc, hc'⟩ | ⟨c, c', hc, hc', hcallee⟩ := rel_cases (h.replica.likeness.child? hN .function)
  · simp [hc, hc']
  · have hbare := h.replica.likeness.bare hcallee
    simp [hc, hc', h.replica.kind hbare, h.replica.text hbare, h.isNone_useOf hbare]

/-- Counterparts call the same functions. -/
theorem calls (h : r.Repeats M readAt r') (hN : M.node n n') (name : QualifiedName) :
    r'.calls n' name = r.calls n name := by
  unfold Resolution.calls
  obtain ⟨hc, hc'⟩ | ⟨c, c', hc, hc', hcallee⟩ := rel_cases (h.replica.likeness.child? hN .function)
  · simp [hc, hc']
  have hbare := h.replica.likeness.bare hcallee
  simp only [hc, hc', Option.map_some, h.replica.kind hbare, h.replica.text hbare]
  split
  · rfl
  · obtain ⟨ho, ho'⟩ | ⟨o, o', ho, ho', hoperand⟩ :=
      rel_cases (h.replica.likeness.child? hbare .operand)
    · simp [ho, ho']
    obtain ⟨hm, hm'⟩ | ⟨m, m', hm, hm', hmember⟩ :=
      rel_cases (h.replica.likeness.child? hbare .member)
    · simp [ho, ho', hm, hm']
    simp only [ho, ho', hm, hm', h.replica.text hmember]
    congr 1
    split
    · rfl
    · exact h.isPackage hoperand _
    · exact h.hasType hoperand _ _
  · rfl

/-! ### Writes -/

theorem writesOf (h : r.Repeats M readAt r') (hij : M.number i j) (hb : r.bindings[i]? = some b)
    (hb' : r'.bindings[j]? = some b') :
    List.Forall₂ (Supply.Alike M.node) (Search.writesOf i b) (Search.writesOf j b') := by
  have hbinding := h.binding hij
  rw [hb, hb', Option.rel_some_some] at hbinding
  refine List.rel_map (fun w w' hw => ?_) hbinding.2.writes
  exact ⟨h.node_of_content hw.site, rel_mono hw.value fun _ _ hv => h.node_of_content hv,
    hw.conditional, rfl⟩

theorem collectionWrites (h : r.Repeats M readAt r') (hij : M.number i j)
    (hb : r.bindings[i]? = some b) (hb' : r'.bindings[j]? = some b') :
    List.Forall₂ (Supply.Alike M.node) (Search.collectionWrites r i b)
      (Search.collectionWrites r' j b') := by
  have hbinding := h.binding hij
  rw [hb, hb', Option.rel_some_some] at hbinding
  refine List.rel_map (fun w w' hw => ?_) hbinding.2.writes
  have hvalue : Option.Rel M.node w.value w'.value := rel_mono hw.value fun _ _ hv =>
    h.node_of_content hv
  refine ⟨h.node_of_content hw.site, hvalue, hw.conditional, ?_⟩
  obtain ⟨hv, hv'⟩ | ⟨v, v', hv, hv', hN⟩ := rel_cases hvalue
  · simp [hv, hv']
  · simp [hv, hv', h.isAppend (h.replica.likeness.bare hN)]

structure Considered (r : Resolution) (supplies : Nat → Binding → List Supply) : Prop where
  isSupply {i : Nat} {b : Binding} {s : Supply} : r.bindings[i]? = some b → s ∈ supplies i b →
    r.IsSupply i b s.site
  value_mem {i : Nat} {b : Binding} {s : Supply} {v : Node} : r.bindings[i]? = some b →
    s ∈ supplies i b → s.value = some v → v ∈ s.site.preorder

/-- The writes of a binding are considered, whatever is noted of them besides site and value. -/
theorem considered_map (hr : r.Grounded) {f : Write → Supply} (hsite : ∀ w, (f w).site = w.site)
    (hvalue : ∀ w, (f w).value = w.value) : Considered r fun _ b => b.writes.map f where
  isSupply _ hs := by
    obtain ⟨w, hw, rfl⟩ := List.mem_map.1 hs
    exact .inl ⟨w, hw, (hsite w).symm⟩
  value_mem hb hs hv := by
    obtain ⟨w, hw, rfl⟩ := List.mem_map.1 hs
    rw [hsite]
    exact (hr.binding _ (List.mem_of_getElem? hb)).value w hw _ ((hvalue w).symm.trans hv)

theorem considered_writesOf (hr : r.Grounded) : Considered r Search.writesOf :=
  considered_map hr (fun _ => rfl) fun _ => rfl

theorem considered_collectionWrites (hr : r.Grounded) : Considered r (Search.collectionWrites r) :=
  considered_map hr (fun _ => rfl) fun _ => rfl

theorem considered_member (hr : r.Grounded) (key : Key) :
    Considered r fun i b => Search.writesOf i b ++ Search.memberWrites r key i b where
  isSupply hb hs := by
    obtain hs | hs := List.mem_append.1 hs
    · exact (considered_writesOf hr).isSupply hb hs
    · exact .inr ⟨key, _, hs, rfl⟩
  value_mem hb hs hv := by
    obtain hs | hs := List.mem_append.1 hs
    · exact (considered_writesOf hr).value_mem hb hs hv
    · exact (memberWrites_value_mem hs hv).2

/-- Following the writes of a variable gives one answer. -/
theorem throughBinding (h : r.Repeats M readAt r')
    {supplies supplies' : Nat → Binding → List Supply} {follow follow' : Node → Node → List Nat → V}
    (hident : M.node n n') (hsite : M.node site site') (hin : readAt n site)
    (hkind : n.kind = .identifier) (hvisited : VisitedAlike M visited visited')
    (hconsidered : Considered r supplies)
    (hsupplies : ∀ {i j b b'}, M.number i j → r.bindings[i]? = some b → r'.bindings[j]? = some b' →
      List.Forall₂ (Supply.Alike M.node) (supplies i b) (supplies' j b'))
    (hfollow : Agree M readAt follow follow') :
    Search.throughBinding r' n' site' visited' supplies' follow' =
      Search.throughBinding r n site visited supplies follow := by
  unfold Search.throughBinding
  obtain ⟨hb, hb'⟩ | ⟨i, b, j, b', hb, hb', hij, halike, -⟩ := h.bindingOf_cases hident
  · simp [hb, hb']
  obtain ⟨huse, hget⟩ := bindingOf_eq_some.1 hb
  have hget' := (bindingOf_eq_some.1 hb').2
  have hdecl := h.node_of_content halike.decl
  -- the writes that reach the sites correspond, as their order and places do
  have hreaching : List.Forall₂ (Supply.Alike M.node) (reaching (supplies i b) site)
      (reaching (supplies' j b') site') :=
    reaching_alike (hsupplies hij hget hget')
      (fun hs ht hss htt => h.start_le hget (hconsidered.isSupply hget hs)
        (hconsidered.isSupply hget ht) hss htt)
      fun hs hss => h.reaches hget (hconsidered.isSupply hget hs) hin hkind huse hss hsite
  simp only [hb, hb', hvisited.contains hdecl]
  have hkind := halike.kind
  generalize b.kind = kind, b'.kind = kind' at hkind
  cases hkind with
  | function | parameter => rfl
  | packageVariable | localVariable =>
    refine if_congr Iff.rfl rfl
      (congrArg Verdict.all (map_eq_of_rel hreaching fun s s' hs halike => ?_))
    obtain ⟨hv, hv'⟩ | ⟨v, v', hv, hv', hN⟩ := rel_cases halike.value
    · rw [hv, hv']
    · rw [hv, hv']
      exact hfollow hN halike.site
        (h.reading.of_mem (hconsidered.value_mem hget (reaching_subset _ _ hs) hv))
        (.cons ⟨_, _, hdecl, rfl, rfl⟩ hvisited)

/-! ### Steps -/

variable {test test' : ClosureTest V} {next next' : Follow V} {key key' : Key}

theorem memberOf (h : r.Repeats M readAt r')
    (hnext : ∀ goal, Agree M readAt (next goal) (next' goal)) (hkey : Key.Alike M.node key key') :
    Agree M readAt (Search.memberOf next key) (Search.memberOf next' key') := by
  intro expr expr' site site' visited visited' hexpr hsite hin hvisited
  unfold Search.memberOf
  have hvalue := stripAddress_replica h.replica hexpr
  have hmem : readAt (stripAddress expr) site :=
    h.reading.trans hin (stripAddress_mem_preorder expr)
  dsimp only
  rw [h.replica.kind hvalue, isMemberWrite_replica h.replica hsite]
  split
  · obtain ⟨he, he'⟩ | ⟨e, e', he, he', hN⟩ := rel_cases (elementOf_replica h.replica hkey hvalue)
    · rw [he, he']
    · rw [he, he']
      exact hnext _ hN hsite (h.reading.trans hmem (elementOf_mem_preorder he)) hvisited
  · split
    · exact hnext _ hvalue hsite hmem hvisited
    · rfl

/-- Selecting a member gives one answer for counterparts. -/
theorem member (h : r.Repeats M readAt r') (hnext : ∀ goal, Agree M readAt (next goal) (next' goal))
    (hexpr : M.node expr expr') (hsite : M.node site site') (hin : readAt expr site)
    (hvisited : VisitedAlike M visited visited') :
    Search.member r' next' expr' site' visited' = Search.member r next expr site visited := by
  unfold Search.member
  obtain ⟨ho, ho'⟩ | ⟨o, o', ho, ho', hoperand⟩ :=
    rel_cases (h.replica.likeness.child? hexpr .operand)
  · simp [ho, ho']
  obtain ⟨hk, hk'⟩ | ⟨key, key', hk, hk', hkey⟩ :=
    rel_cases (Key.ofExpression_replica h.replica hexpr)
  · simp [ho, ho', hk, hk']
  have hbare := h.replica.likeness.bare hoperand
  simp only [ho, ho', hk, hk', h.replica.kind hbare]
  split
  · obtain ⟨he, he'⟩ | ⟨e, e', he, he', hN⟩ := rel_cases (elementOf_replica h.replica hkey hbare)
    · rw [he, he']
    · rw [he, he']
      exact hnext _ hN hbare (h.reading.of_mem (elementOf_mem_preorder he)) hvisited
  next hident =>
    refine h.throughBinding hbare hsite ?_ hident hvisited (considered_member h.grounded key)
      (fun hij hb hb' => List.rel_append (h.writesOf hij hb hb') (h.memberWrites hij hb hb' hkey))
      (h.memberOf hnext hkey)
    exact h.reading.trans hin (preorder_trans (preorder_of_child? ho) (bare_mem_preorder o))
  · rfl

theorem identifier (h : r.Repeats M readAt r') (htest : ClosureTest.Agrees M test test')
    (hnext : ∀ goal, Agree M readAt (next goal) (next' goal))
    (hexpr : M.node expr expr') (hkind : expr.kind = .identifier) (hsite : M.node site site')
    (hin : readAt expr site) (hvisited : VisitedAlike M visited visited') :
    Search.identifier r' test' next' expr' site' visited' =
      Search.identifier r test next expr site visited := by
  unfold Search.identifier
  obtain ⟨hd, hd'⟩ | ⟨d, d', hd, hd', hN⟩ := rel_cases (h.declaration? hexpr)
  · simp only [hd, hd']
    exact h.throughBinding hexpr hsite hin hkind hvisited (considered_writesOf h.grounded)
      h.writesOf (hnext _)
  · simp only [hd, hd']
    exact htest.function hN

/-- The literal that a write assigns, if it is one. -/
theorem literal (h : r.Repeats M readAt r') {w w' : Write} (hw : Write.Alike M.content w w') :
    Option.Rel M.node ((w.value.map Node.bare).filter (·.kind == .funcLiteral))
      ((w'.value.map Node.bare).filter (·.kind == .funcLiteral)) := by
  obtain ⟨hv, hv'⟩ | ⟨v, v', hv, hv', hcontent⟩ := rel_cases hw.value
  · simp [hv, hv']
  · have hvalue := h.replica.likeness.bare (h.node_of_content hcontent)
    simp only [hv, hv', Option.map_some, Option.filter_some, h.replica.kind hvalue]
    split
    · exact .some hvalue
    · exact .none

/-- Counterparts of a callee stand for counterparts. -/
theorem factories (h : r.Repeats M readAt r') (depth : Nat) (hN : M.node n n') :
    List.Forall₂ M.node (Search.factories r depth n) (Search.factories r' depth n') := by
  induction depth generalizing n n' with
  | zero => exact .nil
  | succ depth ih =>
    have hbare := h.replica.likeness.bare hN
    rw [Search.factories, Search.factories]
    rw [h.replica.kind hbare]
    split
    · exact .cons hbare .nil
    · obtain ⟨hb, hb'⟩ | ⟨i, b, j, b', hb, hb', -, halike, hsame⟩ := h.bindingOf_cases hbare
      · rw [hb, hb']
        exact .nil
      rw [hb, hb']
      have hkind := halike.kind
      have hwrites := hsame.writes
      dsimp only
      generalize b.kind = kind, b'.kind = kind' at hkind
      generalize b.writes = ws, b'.writes = ws' at hwrites
      cases hkind with
      | function hd => exact .cons (h.node_of_content hd) .nil
      | packageVariable | parameter => exact .nil
      | localVariable =>
        obtain hnil | ⟨hw, hnil | ⟨-, -⟩⟩ := hwrites
        · exact .nil
        · obtain ⟨hl, hl'⟩ | ⟨l, l', hl, hl', hN⟩ := rel_cases (h.literal hw)
          · simp [hl, hl']
          · simpa [hl, hl'] using hN
        · exact .nil
    · obtain ⟨hc, hc'⟩ | ⟨c, c', hc, hc', hcallee⟩ :=
        rel_cases (h.replica.likeness.child? hbare .function)
      · rw [hc, hc']
        exact .nil
      · rw [hc, hc']
        exact List.rel_flatMap
          (List.rel_flatMap (ih hcallee) fun _ _ hf => returnedValues_replica h.replica hf)
          fun _ _ hv => ih hv
    · exact .nil

theorem factoryCall (h : r.Repeats M readAt r') (htest : ClosureTest.Agrees M test test')
    (hnext : ∀ goal, Agree M readAt (next goal) (next' goal)) (depth : Nat)
    (hexpr : M.node expr expr') (hvisited : VisitedAlike M visited visited') :
    Search.factoryCall r' test' next' depth expr' visited' =
      Search.factoryCall r test next depth expr visited := by
  unfold Search.factoryCall
  rw [htest.factoryArguments hexpr]
  split
  · rfl
  obtain ⟨hc, hc'⟩ | ⟨c, c', hc, hc', hcallee⟩ :=
    rel_cases (h.replica.likeness.child? hexpr .function)
  · rw [hc, hc']
  simp only [hc, hc', h.replica.kind hcallee, h.replica.kind (h.replica.likeness.bare hcallee)]
  split
  · rfl
  · have hentered :
        List.Forall₂ M.node ((Search.factories r depth c).filter fun f => !visited.contains f.id)
          ((Search.factories r' depth c').filter fun f => !visited'.contains f.id) :=
      List.rel_filter (fun f f' hf => by simp only [hvisited.contains hf])
        (h.factories depth hcallee)
    refine congrArg Verdict.some ?_
    rw [List.flatMap, List.flatMap]
    refine congrArg List.flatten (map_eq_of_rel hentered fun f f' _ hf => ?_)
    refine map_eq_of_rel (returnedValues_replica h.replica hf) fun v v' _ hv => ?_
    exact hnext _ hv hv (h.reading.of_mem (self_mem_preorder v))
      (.cons ⟨_, _, hf, rfl, rfl⟩ hvisited)

/-- One level of a search for a closure gives one answer for counterparts. -/
theorem closureStep (h : r.Repeats M readAt r') (htest : ClosureTest.Agrees M test test')
    (hnext : ∀ goal, Agree M readAt (next goal) (next' goal)) (depth : Nat)
    (hexpr : M.node expr expr') (hsite : M.node site site') (hin : readAt expr site)
    (hvisited : VisitedAlike M visited visited') :
    Search.closureStep r' test' next' depth expr' site' visited' =
      Search.closureStep r test next depth expr site visited := by
  unfold Search.closureStep
  have hbare := h.replica.likeness.bare hexpr
  have hmem : readAt expr.bare site := h.reading.trans hin (bare_mem_preorder expr)
  dsimp only
  rw [h.replica.kind hbare]
  split
  · exact htest.function hbare
  next hident => exact h.identifier htest hnext hbare hident hsite hmem hvisited
  · exact h.factoryCall htest hnext depth hbare hvisited
  · exact h.member hnext hbare hsite hmem hvisited
  · exact h.member hnext hbare hsite hmem hvisited
  · rfl

theorem taskStep (h : r.Repeats M readAt r')
    (hnext : ∀ goal, Agree M readAt (next goal) (next' goal)) (wrapper : TaskConstructor)
    (hexpr : M.node expr expr') (hsite : M.node site site') (hin : readAt expr site)
    (hvisited : VisitedAlike M visited visited') :
    Search.taskStep r' next' wrapper expr' site' visited' =
      Search.taskStep r next wrapper expr site visited := by
  unfold Search.taskStep
  have hbare := h.replica.likeness.bare hexpr
  dsimp only
  rw [h.replica.kind hbare, h.calls hbare]
  split
  · split
    · obtain ⟨ha, ha'⟩ | ⟨a, a', ha, ha', hN⟩ :=
        rel_cases (rel_getElem? (h.replica.arguments hbare) wrapper.callback)
      · rw [ha, ha']
      · rw [ha, ha']
        exact hnext _ hN hbare
          (h.reading.of_mem (arguments_subset (List.mem_of_getElem? ha))) hvisited
    · rfl
  next hident =>
    exact h.throughBinding hbare hsite (h.reading.trans hin (bare_mem_preorder expr)) hident
      hvisited (considered_writesOf h.grounded) h.writesOf (hnext _)
  · rfl

theorem collectionStep (h : r.Repeats M readAt r')
    (hnext : ∀ goal, Agree M readAt (next goal) (next' goal)) (wrapper : Option TaskConstructor)
    (hexpr : M.node expr expr') (hsite : M.node site site') (hin : readAt expr site)
    (hvisited : VisitedAlike M visited visited') :
    Search.collectionStep r' next' wrapper expr' site' visited' =
      Search.collectionStep r next wrapper expr site visited := by
  unfold Search.collectionStep
  have hbare := h.replica.likeness.bare hexpr
  dsimp only
  rw [h.replica.kind hbare, h.isAppend hbare]
  split
  · obtain ⟨hc, hc'⟩ | ⟨body, body', hc, hc', hbody⟩ :=
      rel_cases (h.replica.likeness.child? hbare .body)
    · rw [hc, hc']
    · rw [hc, hc']
      have hvalues := List.rel_filterMap (fun _ _ hN => elementValue?_replica h.replica hN)
        (h.replica.parts hbody)
      refine congrArg Verdict.all
        (map_eq_of_rel hvalues fun v v' hv hN => hnext _ hN hbare (h.reading.of_mem ?_) hvisited)
      obtain ⟨element, hmem, hvalue⟩ := List.mem_filterMap.1 hv
      exact preorder_trans (preorder_of_child? hc)
        (preorder_trans (parts_subset hmem) (elementValue?_mem_preorder hvalue))
  · split
    · refine congrArg Verdict.all
        (map_eq_of_rel (List.forall₂_drop 1 (h.replica.arguments hbare)) fun a a' ha hN => ?_)
      have hargument := arguments_subset (List.mem_of_mem_drop ha)
      rw [h.replica.kind hN]
      split
      · obtain ⟨hp, hp'⟩ | ⟨p, p', hp, hp', hinner⟩ := rel_cases (rel_head? (h.replica.parts hN))
        · rw [hp, hp']
        · rw [hp, hp']
          exact hnext _ hinner hbare
            (h.reading.of_mem (preorder_trans hargument (parts_subset (List.mem_of_mem_head? hp))))
            hvisited
      · exact hnext _ hN hbare (h.reading.of_mem hargument) hvisited
    · rfl
  next hident =>
    exact h.throughBinding hbare hsite (h.reading.trans hin (bare_mem_preorder expr)) hident
      hvisited (considered_collectionWrites h.grounded) h.collectionWrites (hnext _)
  · rfl

/-- Searches for counterparts give one answer. -/
theorem search (h : r.Repeats M readAt r') (htest : ClosureTest.Agrees M test test') (depth : Nat)
    (goal : Goal) :
    Agree M readAt (Search.search r test depth goal) (Search.search r' test' depth goal) := by
  induction depth generalizing goal with
  | zero =>
    intro expr expr' site site' visited visited' _ _ _ _
    rfl
  | succ depth ih =>
    intro expr expr' site site' visited visited' hexpr hsite hin hvisited
    cases goal with
    | closure => exact h.closureStep htest ih _ hexpr hsite hin hvisited
    | task wrapper => exact h.taskStep ih wrapper hexpr hsite hin hvisited
    | collection wrapper => exact h.collectionStep ih wrapper hexpr hsite hin hvisited

/-! ### Tests -/

theorem mentionsToken (h : r.Repeats M readAt r') (carriers : Carriers) (intoLiterals : Bool)
    (hN : M.node n n') (hpart : n.isPart = true) :
    mentionsToken r' carriers intoLiterals n' = mentionsToken r carriers intoLiterals n :=
  h.mentionsBelow hN (fun hkind => by simp [isPart, hkind] at hpart)
    (fun _ _ _ ha => h.replica.parts ha) hN

theorem any_mentionsToken (h : r.Repeats M readAt r') (carriers : Carriers) (hN : M.node n n') :
    n'.arguments.any (Handoff.mentionsToken r' carriers true) =
      n.arguments.any (Handoff.mentionsToken r carriers true) := by
  have hpart : ∀ a ∈ n.arguments, a.isPart = true := by
    unfold Node.arguments
    cases n.child? .arguments with
    | none => simp
    | some list => exact fun a ha => (mem_parts.1 ha).2
  have harguments := h.replica.arguments hN
  generalize n.arguments = as, n'.arguments = as' at harguments hpart
  induction harguments with
  | nil => rfl
  | cons ha _ ih =>
    obtain ⟨hpart, hrest⟩ := List.forall_mem_cons.1 hpart
    rw [List.any_cons, List.any_cons, h.mentionsToken carriers true ha hpart, ih hrest]

theorem captureTest_agrees (h : r.Repeats M readAt r') (carriers : Carriers) :
    ClosureTest.Agrees M (captureTest r carriers) (captureTest r' carriers) where
  function hN := h.function_captureTest (fun _ _ _ ha => h.replica.parts ha) hN
  factoryArguments hN := by
    simp only [captureTest, h.any_mentionsToken carriers hN]

theorem isMet (h : r.Repeats M readAt r') (requirement : Requirement) {sites sites' : List CallSite}
    (hsites : List.Forall₂ (CallSite.Alike M.node) sites sites') :
    requirement.isMet r' sites' = requirement.isMet r sites := by
  have hcalled (name : QualifiedName) :
      Requirement.isCalled r' sites' name = Requirement.isCalled r sites name := by
    unfold Requirement.isCalled
    induction hsites with
    | nil => rfl
    | cons hsite _ ih => simp [h.calls hsite.call, ih]
  simp only [Requirement.isMet, funext hcalled]

/-- Counterparts of calls meet a requirement alike. -/
theorem outcome (h : r.Repeats M readAt r') (requirement : Requirement)
    {sites sites' : List CallSite} (hsites : List.Forall₂ (CallSite.Alike M.node) sites sites') :
    requirement.outcome r' sites' = requirement.outcome r sites := by
  have hstart : List.Forall₂ (CallSite.Alike M.node) (sites.filter fun site => !site.deferred)
      (sites'.filter fun site => !site.deferred) :=
    List.rel_filter (fun _ _ hsite => by simp only [hsite.deferred]) hsites
  rw [Requirement.outcome, Requirement.outcome, h.isMet requirement hstart,
    h.isMet requirement hsites]

theorem outcomeTest_agrees (h : r.Repeats M readAt r') (requirement : Requirement) :
    ClosureTest.Agrees M (outcomeTest r requirement) (outcomeTest r' requirement) where
  function hN := by
    obtain ⟨hc, hc'⟩ | ⟨body, body', hc, hc', hbody⟩ :=
      rel_cases (h.replica.likeness.child? hN .body)
    · simp [outcomeTest, hc, hc']
    · simp [outcomeTest, hc, hc', h.outcome requirement
        (CallSite.within_replica h.replica hbody false).1, CallSite.ofBody]
  factoryArguments _ := rfl

/-! ### The graph -/

/-- Counterparts stand for counterparts. -/
theorem functionOf (h : r.Repeats M readAt r') (hN : M.node n n') :
    Option.Rel M.node (r.functionOf n) (r'.functionOf n') := by
  unfold Resolution.functionOf
  have hbare := h.replica.likeness.bare hN
  dsimp only
  rw [h.replica.kind hbare]
  split
  · exact .some hbare
  · obtain ⟨hb, hb'⟩ | ⟨i, b, j, b', hb, hb', -, halike, hsame⟩ := h.bindingOf_cases hbare
    · rw [hb, hb']
      exact .none
    rw [hb, hb']
    have hkind := halike.kind
    have hwrites := hsame.writes
    unfold Binding.soleLiteral
    dsimp only
    generalize b.kind = kind, b'.kind = kind' at hkind
    generalize b.writes = ws, b'.writes = ws' at hwrites
    cases hkind with
    | function hd => exact .some (h.node_of_content hd)
    | packageVariable | parameter => exact .none
    | localVariable =>
      obtain hnil | ⟨hw, hnil | ⟨-, -⟩⟩ := hwrites
      · exact .none
      · exact h.literal hw
      · exact .none
  · exact .none

/-- A node makes the graph pass a function just when its counterpart does. -/
theorem isReason_iff {carriers : Carriers} {f f' : Node} (h : r.Repeats M readAt r')
    (hf : M.node f f') (hN : M.node n n') (hn : n ∈ f.preorder) (hn' : n' ∈ f'.preorder) :
    r'.IsReason carriers f' n' ↔ r.IsReason carriers f n := by
  unfold IsReason
  rw [h.replica.kind hN, h.typeOf hN]
  refine and_congr (iff_of_true hn' hn) (or_congr_left (and_congr_right fun _ => ?_))
  obtain ⟨hb, hb'⟩ | ⟨i, b, j, b', hb, hb', hij, -, -⟩ := h.bindingOf_cases hN
  · simp [hb, hb']
  obtain ⟨huse, hget⟩ := bindingOf_eq_some.1 hb
  have hcaptured : b'.kind.isPackageLevel = false ∧ f'.encloses b'.decl = false ↔
      b.kind.isPackageLevel = false ∧ f.encloses b.decl = false := by
    simpa [FunctionUnit.isCaptured, hget, (bindingOf_eq_some.1 hb').2] using
      Bool.eq_iff_iff.1 (h.isCaptured hf hn huse hij)
  simp [hb, hb', h.mayHoldToken hij, ← and_assoc, hcaptured]

theorem isPart_of_isReason {carriers : Carriers} {f : Node} (h : r.IsReason carriers f n) :
    n.isPart = true := by
  obtain ⟨-, ⟨hkind, -⟩ | ⟨hkind, -⟩⟩ := h <;> simp [isPart, hkind, Kind.isNamed]

/-- A function reaches a context where its counterpart does. -/
theorem reachesToken_iff {carriers : Carriers} {f f' : Node} (h : r.Repeats M readAt r')
    (hf : M.node f f') : r'.ReachesToken carriers f' ↔ r.ReachesToken carriers f := by
  rw [Resolution.reachesToken_iff, Resolution.reachesToken_iff, h.imports,
    declaresToken_like M.like r.imports carriers hf]
  refine or_congr_right ⟨?_, ?_⟩
  · rintro ⟨n', hreason⟩
    have wf' := h.grounded'.wellFormed.of_mem (h.root_eq' ▸ h.mem' hf)
    obtain ⟨n, hn, hN⟩ := h.replica.exists_left wf' hf hreason.1 (isPart_of_isReason hreason)
    exact ⟨n, (h.isReason_iff hf hN hn hreason.1).1 hreason⟩
  · rintro ⟨n, hreason⟩
    obtain ⟨n', hn', hN⟩ := h.replica.exists_right (M.wellFormed hf) hf hreason.1
      (isPart_of_isReason hreason)
    exact ⟨n', (h.isReason_iff hf hN hreason.1 hn').2 hreason⟩

/-- Counterparts are located alike, in units of counterparts. -/
theorem locate (h : r.Repeats M readAt r') {g g' : CaptureGraph}
    (hg : CaptureGraph.build r = some g) (hg' : CaptureGraph.build r' = some g')
    (hN : M.node n n') :
    Option.Rel
      (fun u u' => M.node u.function u'.function ∧ u ∈ FunctionUnit.collect r none 0 r.root ∧
        u' ∈ FunctionUnit.collect r' none 0 r'.root) (g.locate r n) (g'.locate r' n') := by
  unfold CaptureGraph.locate
  obtain ⟨hf, hf'⟩ | ⟨f, f', hf, hf', hfunction⟩ := rel_cases (h.functionOf hN)
  · simp [hf, hf']
  have hkind : f.kind.isFunction = true := by
    obtain ⟨-, hk | hk⟩ := (standsFor_of_functionOf hf).candidate h.grounded
      (h.mem_left hN) <;> rw [hk] <;> rfl
  obtain ⟨u, hu, hmem, rfl⟩ := CaptureGraph.unitOf_function h.grounded.wellFormed hg
    (h.mem_left hfunction) hkind
  obtain ⟨u', hu', hmem', rfl⟩ := CaptureGraph.unitOf_function h.grounded'.wellFormed hg'
    (h.root_eq' ▸ h.mem' hfunction) (by rwa [h.replica.kind hfunction])
  simpa [hf, hf', hu, hu'] using ⟨hfunction, hmem, hmem'⟩

theorem build_cases (h : r.Repeats M readAt r') :
    (CaptureGraph.build r = none ∧ CaptureGraph.build r' = none) ∨
      ∃ g g', CaptureGraph.build r = some g ∧ CaptureGraph.build r' = some g' := by
  unfold CaptureGraph.build
  rw [h.root_eq, h.root_eq', h.hasErrors]
  split
  · exact .inl ⟨rfl, rfl⟩
  · exact .inr ⟨_, _, rfl, rfl⟩

/-- The graphs give one verdict on the contexts of counterparts. -/
theorem traceCapture (h : r.Repeats M readAt r') (carriers : Carriers) (hN : M.node n n') :
    traceCapture (CaptureGraph.build r') r' carriers n' = traceCapture
      (CaptureGraph.build r) r carriers n := by
  obtain ⟨hg, hg'⟩ | ⟨g, g', hg, hg'⟩ := h.build_cases
  · rw [hg, hg']
    rfl
  obtain ⟨hu, hu'⟩ | ⟨u, u', hu, hu', hfunction, hmem, hmem'⟩ := rel_cases (h.locate hg hg' hN)
  · simp [Handoff.traceCapture, hg, hg', hu, hu']
  · have huses : u'.usesToken r' carriers = u.usesToken r carriers := by
      rw [Bool.eq_iff_iff, FunctionUnit.usesToken_iff h.grounded'.wellFormed hmem',
        FunctionUnit.usesToken_iff h.grounded.wellFormed hmem, h.reachesToken_iff hfunction]
    rw [hg, hg', CaptureGraph.traceCapture_of_locate hu,
      CaptureGraph.traceCapture_of_locate hu', huses]

/-- The graphs give one verdict on the calls of counterparts. -/
theorem traceOutcome (h : r.Repeats M readAt r') (requirement : Requirement) (hN : M.node n n') :
    traceOutcome (CaptureGraph.build r') r' requirement n' =
      traceOutcome (CaptureGraph.build r) r requirement n := by
  obtain ⟨hg, hg'⟩ | ⟨g, g', hg, hg'⟩ := h.build_cases
  · rw [hg, hg']
    rfl
  obtain ⟨hu, hu'⟩ | ⟨u, u', hu, hu', hfunction, hmem, hmem'⟩ := rel_cases (h.locate hg hg' hN)
  · simp [Handoff.traceOutcome, hg, hg', hu, hu']
  · have hcalls : List.Forall₂ (CallSite.Alike M.node) u.calls u'.calls := by
      rw [FunctionUnit.calls_eq hmem, FunctionUnit.calls_eq hmem']
      exact rel_getD_nil (h.replica.likeness.child? hfunction .body) fun _ _ _ hbody =>
        (CallSite.within_replica h.replica hbody false).1
    simp [Handoff.traceOutcome, hg, hg', hu, hu', h.outcome requirement hcalls]

end Resolution.Repeats

end Handoff

import Handoff.Proofs.Resolution.Alignment
import Handoff.Proofs.Resolution.Rounds
import Handoff.Proofs.Syntax.Reordering

/-!
# Resolving the declarations of reordered files

Two files hold the same declarations in another order. The package declares the same in both, under
other numbers. A visit of a declaration and one of its copy find the same, whatever was visited
before, as long as the bindings of the package that the declaration mentions have the same types at
that point.

## Main definitions

* `Rearranged`: two files with the same declarations, no two of which introduce the same name.
* `Rearranged.Paired`: numbers of a binding of the package in the two files.
* `Rearranged.correspondence`: the correspondence of two such files, in some declarations.

## Main statements

* `Rearranged.like_visit`: a declaration and its copy are resolved alike.
-/

namespace Handoff

open Syntax Node Resolver

/-- Two files with the same declarations, no two of which introduce the same name. -/
structure Rearranged (root root' : Node) (ps : List (Node × Node)) :
    Prop extends Reordered root root' ps where
  wf : root.WellFormed
  wf' : root'.WellFormed
  isFile : root.kind = .sourceFile
  isFile' : root'.kind = .sourceFile
  names : (root.parts.flatMap declaredNames).Nodup

structure Binding.Twins (ps : List (Node × Node)) (b b' : Binding) : Prop where
  name : b'.name = b.name
  kind : BindingKind.Alike (fun n n' => (n, n') ∈ ps) b.kind b'.kind
  decl : (b.decl, b'.decl) ∈ ps
  type : b'.type = b.type

namespace Syntax.Reordered

variable {root root' d d' : Node} {ps : List (Node × Node)} (h : Reordered root root' ps)

include h

theorem map_text {ns ns' : List Node} (hns : List.Forall₂ (fun n n' => (n, n') ∈ ps) ns ns') :
    ns'.map Node.text = ns.map Node.text := by
  induction hns with
  | nil => rfl
  | cons hn _ ih => rw [List.map_cons, List.map_cons, h.text hn, ih]

theorem text_child? (hp : (d, d') ∈ ps) (f : Field) :
    (d'.child? f).map Node.text = (d.child? f).map Node.text := by
  obtain ⟨hc, hc'⟩ | ⟨c, c', hc, hc', hp⟩ := rel_cases (h.likeness.child? hp f)
  · rw [hc, hc']
  · rw [hc, hc', Option.map_some, Option.map_some, h.text hp]

theorem specs (hp : (d, d') ∈ ps) :
    List.Forall₂ (fun n n' => (n, n') ∈ ps) (d.parts.filter isValueSpec)
      (d'.parts.filter isValueSpec) :=
  h.likeness.filter (p := fun k => k == .varSpec || k == .constSpec) (h.parts hp)

/-! ### What a declaration and its copy add -/

/-- A declaration and its copy introduce the same names. -/
theorem declaredNames_eq (hp : (d, d') ∈ ps) : declaredNames d' = declaredNames d := by
  unfold declaredNames
  rw [h.kind hp]
  have hvalues :
      ((d'.parts.filter isValueSpec).flatMap fun spec => spec.inField .name).map Node.text =
        ((d.parts.filter isValueSpec).flatMap fun spec => spec.inField .name).map Node.text :=
    h.map_text (List.rel_flatMap (h.specs hp) fun _ _ hspec => h.likeness.inField .name hspec)
  split
  · have hname := congrArg Option.toList (h.text_child? hp .name)
    rw [Option.toList_map, Option.toList_map] at hname
    rw [hname]
  · rw [hvalues]
  · rw [hvalues]
  · have hparts := h.parts hp
    generalize d.parts = specs, d'.parts = specs' at hparts
    induction hparts with
    | nil => rfl
    | cons hspec _ ih => rw [List.filterMap_cons, List.filterMap_cons, h.text_child? hspec, ih]
  · rfl

/-- A declaration and its copy add twin bindings. -/
theorem packageBindings_twins (imports : Imports) (hp : (d, d') ∈ ps) :
    List.Forall₂ (Binding.Twins ps) (packageBindings root imports d)
      (packageBindings root' imports d') := by
  unfold packageBindings
  rw [h.kind hp]
  have hvalues : List.Forall₂ (Binding.Twins ps)
      ((d.parts.filter isValueSpec).flatMap fun spec =>
        ((spec.inField .name).filter (·.text ≠ "_")).map fun name =>
          ⟨name.text, .packageVariable, name, none, root, imports.declaredType spec, []⟩)
      ((d'.parts.filter isValueSpec).flatMap fun spec =>
        ((spec.inField .name).filter (·.text ≠ "_")).map fun name =>
          ⟨name.text, .packageVariable, name, none, root', imports.declaredType spec, []⟩) := by
    refine List.rel_flatMap (h.specs hp) fun spec spec' hspec => ?_
    refine List.rel_map (fun name name' hname => ?_)
      (List.rel_filter (fun name name' hname => ?_) (h.likeness.inField .name hspec))
    · exact ⟨h.text hname, .packageVariable, hname,
        Imports.declaredType_like h.likeness imports hspec⟩
    · dsimp only
      rw [h.text hname]
  split
  · obtain ⟨hc, hc'⟩ | ⟨name, name', hc, hc', hname⟩ := rel_cases (h.likeness.child? hp .name)
    · rw [hc, hc']
      exact .nil
    · rw [hc, hc']
      exact .cons ⟨h.text hname, .function hp, hname, rfl⟩ .nil
  · exact hvalues
  · exact hvalues
  · exact .nil

theorem packageResults_eq (imports : Imports) (hp : (d, d') ∈ ps) :
    packageResults imports d' = packageResults imports d := by
  unfold packageResults
  rw [h.kind hp]
  split
  · obtain ⟨hc, hc'⟩ | ⟨name, name', hc, hc', hname⟩ := rel_cases (h.likeness.child? hp .name)
    · rw [hc, hc']
    · rw [hc, hc']
      obtain ⟨hr, hr'⟩ | ⟨result, result', hr, hr', hresult⟩ :=
        rel_cases (h.likeness.child? hp .result)
      · rw [hr, hr']
      · rw [hr, hr']
        dsimp only
        rw [h.text hname, declaredResults_like h.likeness imports hresult]
  · rfl

theorem packageFields_eq (imports : Imports) (hp : (d, d') ∈ ps) :
    packageFields imports d' = packageFields imports d := by
  unfold packageFields
  rw [h.kind hp]
  split
  · have hspecs := h.likeness.filter (p := (· == .typeSpec)) (h.parts hp)
    generalize d.parts.filter (·.kind == .typeSpec) = specs, d'.parts.filter (·.kind == .typeSpec) =
      specs' at hspecs
    induction hspecs with
    | nil => rfl
    | cons hspec _ ih =>
      rw [List.flatMap_cons, List.flatMap_cons, ih, structFields_like h.likeness imports hspec]
  · rfl

/-- What copies add alike, the second file has from its declarations in some order. -/
theorem exists_perm {β : Type} {f f' : Node → List β} (hf : ∀ {d d'}, (d, d') ∈ ps → f' d' = f d) :
    ∃ copies : List Node, copies.Perm root'.parts ∧ copies.flatMap f' = root.parts.flatMap f := by
  obtain ⟨copies, hcopies, hperm, -⟩ := h.exists_copies
  refine ⟨copies, hperm, ?_⟩
  have hparts := hcopies.aligned.forall₂
  generalize root.parts = ds at hparts
  clear hcopies hperm
  induction hparts with
  | nil => rfl
  | cons hd _ ih => rw [List.flatMap_cons, List.flatMap_cons, hf hd, ih]

theorem imports_eq : Imports.ofFile root' = Imports.ofFile root := by
  obtain ⟨copies, hcopies, -, himports⟩ := h.exists_copies
  refine Imports.ofFile_like h.likeness ?_
  rw [← himports]
  exact h.likeness.filter (p := (· == .importDeclaration)) hcopies.aligned.forall₂

end Syntax.Reordered

namespace Rearranged

variable {root root' n n' d d' : Node} {ps : List (Node × Node)} {i j : Nat}
  {b b' : Binding} {name : String}

section

variable (h : Rearranged root root' ps)

include h

theorem names' : (root'.parts.flatMap declaredNames).Nodup := by
  obtain ⟨copies, hperm, hcopies⟩ := h.exists_perm h.declaredNames_eq
  exact (hperm.flatMap_right declaredNames).nodup_iff.1 (hcopies ▸ h.names)

theorem exists_part_right (hd : d ∈ root.parts) : ∃ d' ∈ root'.parts, (d, d') ∈ ps := by
  obtain ⟨d', hp⟩ := h.exists_right hd (self_mem_preorder d)
  exact ⟨d', (h.mem_parts_iff h.wf h.wf' hp).1 hd, hp⟩

theorem exists_part_left (hd' : d' ∈ root'.parts) : ∃ d ∈ root.parts, (d, d') ∈ ps := by
  obtain ⟨d, hp⟩ := h.exists_left hd' (self_mem_preorder d')
  exact ⟨d, (h.mem_parts_iff h.wf h.wf' hp).2 hd', hp⟩

/-! ### The first round -/

/-- Blank functions apart, the results that a name shows do not depend on the order. -/
theorem results_declared (hname : name ≠ "_") :
    (declared root').facts.results.lookup name = (declared root).facts.results.lookup name := by
  obtain ⟨copies, hperm, hcopies⟩ := h.exists_perm (h.packageResults_eq (.ofFile root))
  rw [Resolver.results_declared, Resolver.results_declared, h.imports_eq, ← hcopies]
  refine (lookup_reverse_flatMap_perm (p := fun e => e.1 == name)
    (fun e he => by simpa using he) hperm ?_).symm
  refine pairwise_filter_of_nodup name
    ((hperm.flatMap_right declaredNames).nodup_iff.2 h.names') fun d _ e he heq => ?_
  obtain rfl : e.1 = name := by simpa using heq
  exact name_mem_of_result he hname

theorem fieldTypes_declared (key : String × String) :
    (declared root').facts.fieldTypes.lookup key = (declared root).facts.fieldTypes.lookup key := by
  obtain ⟨copies, hperm, hcopies⟩ := h.exists_perm (h.packageFields_eq (.ofFile root))
  rw [Resolver.fieldTypes_declared, Resolver.fieldTypes_declared, h.imports_eq, ← hcopies]
  refine (lookup_reverse_flatMap_perm (p := fun e => e.1.1 == key.1)
    (fun e he => by simp [he]) hperm ?_).symm
  refine pairwise_filter_of_nodup key.1
    ((hperm.flatMap_right declaredNames).nodup_iff.2 h.names') fun d _ e he heq => ?_
  rw [← show e.1.1 = key.1 by simpa using heq]
  exact name_mem_of_field he

/-- Every binding of the package has a twin in the other file. -/
theorem exists_declared_right (hb : (declared root).facts.bindings[i]? = some b) :
    ∃ (j : Nat) (b' : Binding), (declared root').facts.bindings[j]? = some b' ∧ b.Twins ps b' := by
  have hmem := List.mem_of_getElem? hb
  rw [bindings_declared] at hmem
  obtain ⟨d, hd, hmem⟩ := List.mem_flatMap.1 hmem
  obtain ⟨d', hd', hp⟩ := h.exists_part_right hd
  obtain ⟨b', hmem', htwins⟩ := rel_mem_left (h.packageBindings_twins (.ofFile root) hp) hmem
  have hmem' : b' ∈ (declared root').facts.bindings := by
    rw [bindings_declared, h.imports_eq]
    exact List.mem_flatMap.2 ⟨d', hd', hmem'⟩
  obtain ⟨j, hj⟩ := List.mem_iff_getElem?.1 hmem'
  exact ⟨j, b', hj, htwins⟩

theorem exists_declared_left (hb' : (declared root').facts.bindings[j]? = some b') :
    ∃ (i : Nat) (b : Binding), (declared root).facts.bindings[i]? = some b ∧ b.Twins ps b' := by
  have hmem := List.mem_of_getElem? hb'
  rw [bindings_declared, h.imports_eq] at hmem
  obtain ⟨d', hd', hmem⟩ := List.mem_flatMap.1 hmem
  obtain ⟨d, hd, hp⟩ := h.exists_part_left hd'
  obtain ⟨b, hmem', htwins⟩ := rel_mem_right (h.packageBindings_twins (.ofFile root) hp) hmem
  have hmem' : b ∈ (declared root).facts.bindings := by
    rw [bindings_declared]
    exact List.mem_flatMap.2 ⟨d, hd, hmem'⟩
  obtain ⟨i, hi⟩ := List.mem_iff_getElem?.1 hmem'
  exact ⟨i, b, hi, htwins⟩

end

def Paired (root root' : Node) (ps : List (Node × Node)) (i j : Nat) : Prop :=
  ∃ b b', (declared root).facts.bindings[i]? = some b ∧
    (declared root').facts.bindings[j]? = some b' ∧ b.Twins ps b'

theorem Paired.lt (hij : Paired root root' ps i j) : i < (declared root).facts.bindings.length := by
  obtain ⟨b, b', hb, -⟩ := hij
  exact (List.getElem?_eq_some_iff.1 hb).1

theorem Paired.lt' (hij : Paired root root' ps i j) :
    j < (declared root').facts.bindings.length := by
  obtain ⟨b, b', -, hb', -⟩ := hij
  exact (List.getElem?_eq_some_iff.1 hb').1

theorem number_eq_of_decl {s : Resolver} {c : Binding} (hs : s.Sound root)
    (hb : s.facts.bindings[i]? = some b) (hc : s.facts.bindings[j]? = some c)
    (hdecl : b.decl = c.decl) : i = j := by
  have hi := (hs.declared i b.view (getElem?_views hb)).1
  have hj := (hs.declared j c.view (getElem?_views hc)).1
  rw [show b.view.decl = c.view.decl from hdecl, hj] at hi
  exact (Option.some.inj hi).symm

section

variable (h : Rearranged root root' ps)

include h

theorem Paired.eq_iff {i' j' : Nat} (hi : Paired root root' ps i i')
    (hj : Paired root root' ps j j') : i = j ↔ i' = j' := by
  obtain ⟨b, b', hb, hb', htwins⟩ := hi
  obtain ⟨c, c', hc, hc', htwins'⟩ := hj
  constructor
  · rintro rfl
    obtain rfl := Option.some.inj (hb.symm.trans hc)
    exact number_eq_of_decl (sound_declared h.wf') hb' hc'
      (h.right_unique h.wf h.wf' htwins.decl htwins'.decl)
  · rintro rfl
    obtain rfl := Option.some.inj (hb'.symm.trans hc')
    exact number_eq_of_decl (sound_declared h.wf) hb hc
      (h.left_unique h.wf h.wf' htwins.decl htwins'.decl)

/-- A name of the package stands for the same in both files. -/
theorem lookup_declared (hname : name ≠ "_") :
    Option.Rel (Paired root root' ps) ((declared root).lookup name)
      ((declared root').lookup name) := by
  cases hl : (declared root).lookup name with
  | some i =>
    obtain ⟨b, hb, hbname⟩ := (lookup_declared_iff h.wf h.names hname).1 hl
    obtain ⟨j, b', hb', htwins⟩ := h.exists_declared_right hb
    rw [(lookup_declared_iff h.wf' h.names' hname).2 ⟨b', hb', htwins.name.trans hbname⟩]
    exact .some ⟨b, b', hb, hb', htwins⟩
  | none =>
    cases hl' : (declared root').lookup name with
    | none => exact .none
    | some j =>
      obtain ⟨b', hb', hbname⟩ := (lookup_declared_iff h.wf' h.names' hname).1 hl'
      obtain ⟨i, b, hb, htwins⟩ := h.exists_declared_left hb'
      cases hl.symm.trans
        ((lookup_declared_iff h.wf h.names hname).2 ⟨b, hb, htwins.name.symm.trans hbname⟩)

/-- After the first round, a node and its copy stand for the same. -/
theorem useOf_declared (hp : (n, n') ∈ ps) :
    Option.Rel (Paired root root' ps) ((declared root).facts.useOf n)
      ((declared root').facts.useOf n') := by
  have hn := preorder_of_inner (h.mem_left hp)
  have hn' := preorder_of_inner (h.mem_right hp)
  cases hu : (declared root).facts.useOf n with
  | some i =>
    obtain ⟨b, hb, rfl⟩ := (useOf_declared_iff h.wf hn).1 hu
    obtain ⟨j, b', hb', htwins⟩ := h.exists_declared_right hb
    rw [(useOf_declared_iff h.wf' hn').2 ⟨b', hb', h.right_unique h.wf h.wf' htwins.decl hp⟩]
    exact .some ⟨b, b', hb, hb', htwins⟩
  | none =>
    cases hu' : (declared root').facts.useOf n' with
    | none => exact .none
    | some j =>
      obtain ⟨b', hb', rfl⟩ := (useOf_declared_iff h.wf' hn').1 hu'
      obtain ⟨i, b, hb, htwins⟩ := h.exists_declared_left hb'
      cases hu.symm.trans
        ((useOf_declared_iff h.wf hn).2 ⟨b, hb, h.left_unique h.wf h.wf' htwins.decl hp⟩)

/-- After the first round, a blank name stands for a binding only as the name of a function. -/
theorem isTitle_of_declared (hn : n ∈ root.preorder) (huse : (declared root).facts.useOf n = some i)
    (htext : n.text = "_") : IsTitle root n := by
  obtain ⟨b, hb, rfl⟩ := (useOf_declared_iff h.wf hn).1 huse
  have hmem := List.mem_of_getElem? hb
  rw [bindings_declared] at hmem
  obtain ⟨d, hd, hmem⟩ := List.mem_flatMap.1 hmem
  obtain ⟨hkind, name, hname, rfl⟩ | ⟨-, spec, -, -, name, -, hblank, rfl⟩ :=
    packageBindings_cases hmem
  · exact ⟨d, preorder_of_inner (inner_of_mem_filter hd), hkind, (mem_children_of_child? hname).1⟩
  · exact absurd htext hblank

/-! ### Visits -/

/-- Copies are written under the same conditions. -/
theorem isConditional {m m' : Node} (hp : (n, n') ∈ ps)
    (hm : (m, m') ∈ ps ∧ m.kind.isSpreading = false ∨ m = root ∧ m' = root') :
    isConditional root' n' m' = isConditional root n m := by
  have hroot : ∀ {root n : Node}, root.WellFormed → n ∈ root.inner → n.id ≠ root.id :=
      fun wf hn hid => by
    rw [wf.distinct.eq_of_id (preorder_of_inner hn) (self_mem_preorder _) hid] at hn
    exact not_inner_self hn
  refine (h.chain_ancestors h.wf h.wf' hp).isConditional (fun ha => ?_)
    (fun ha => ?_) fun a ha hspreading hid => ?_
  · obtain ha | ⟨rfl, rfl⟩ := ha
    · exact h.kind ha
    · rw [h.isFile, h.isFile']
  · obtain ha | ⟨rfl, rfl⟩ := ha
    · obtain ⟨hm, -⟩ | ⟨rfl, rfl⟩ := hm
      · exact h.ids h.wf h.wf' ha hm
      · exact iff_of_false (hroot h.wf (h.mem_left ha)) (hroot h.wf' (h.mem_right ha))
    · obtain ⟨hm, -⟩ | ⟨rfl, rfl⟩ := hm
      · exact iff_of_false (hroot h.wf (h.mem_left hm)).symm (hroot h.wf' (h.mem_right hm)).symm
      · exact iff_of_true rfl rfl
  · have hmem := ((h.wf.distinct.mem_ancestors (preorder_of_inner (h.mem_left hp))).1 ha).1
    obtain ⟨hm, hkind⟩ | ⟨rfl, rfl⟩ := hm
    · obtain rfl := h.wf.distinct.eq_of_id hmem (preorder_of_inner (h.mem_left hm)) hid
      cases hkind.symm.trans hspreading
    · obtain rfl := h.wf.distinct.eq_of_id hmem (self_mem_preorder _) hid
      rw [h.isFile] at hspreading
      cases hspreading

omit h in
def correspondence (h : Rearranged root root' ps) (region : List Node) (number : Nat → Nat → Prop)
    (hnumbers : ∀ {i i' j j' : Nat}, number i i' → number j j' → (i = j ↔ i' = j'))
    (compared : Nat → Prop) (earlier earlier' : Nat → List Write) : Correspondence root root' where
  node n n' := (n, n') ∈ ps ∧ n ∈ preorderAll region
  content n n' := (n, n') ∈ ps
  scope n n' := (n, n') ∈ ps ∧ n.kind.isSpreading = false ∨ n = root ∧ n' = root'
  owner _ _ := True
  number := number
  compared := compared
  earlier := earlier
  earlier' := earlier'
  like := .of_children (fun hp => (h.label hp.1).like) fun {n n'} hp => by
    have hchildren := h.children hp.1
    refine List.forall₂_iff_zip.2
      ⟨hchildren.length_eq, fun {c c'} hc => ⟨(List.forall₂_iff_zip.1 hchildren).2 hc, ?_⟩⟩
    exact mem_preorderAll_of_mem hp.2 (child_mem_preorder (List.of_mem_zip hc).1)
  root_wellFormed := h.wf
  mem hp := preorder_of_inner (h.mem_left hp.1)
  content_of_node hp := hp.1
  scope_of_node hp hopens := .inl ⟨hp.1, Kind.isSpreading_of_opensScope hopens⟩
  scope_root := .inr ⟨rfl, rfl⟩
  owner_of_node _ := trivial
  ids hp hq := h.ids h.wf h.wf' hp.1 hq.1
  numbers := hnumbers
  conditional hp hm := h.isConditional hp.1 hm

end

variable {p q rest rest' : List Node}

/-- Corresponding numbers, before declarations are visited or when they have just been. -/
def InStep (root root' : Node) (ps : List (Node × Node)) (p q : List Node) (i j : Nat) : Prop :=
  Paired root root' ps i j ∨ ∃ k, i = (visited root p).facts.bindings.length + k ∧
    j = (visited root' q).facts.bindings.length + k

section

variable (h : Rearranged root root' ps)

include h

theorem length_declared_le (hp : p ⊆ bodies root) :
    (declared root).facts.bindings.length ≤ (visited root p).facts.bindings.length :=
  (within_declared h.wf h.names hp).length_le

theorem length_declared_le' (hq : q ⊆ bodies root') :
    (declared root').facts.bindings.length ≤ (visited root' q).facts.bindings.length :=
  (within_declared h.wf' h.names' hq).length_le

/-- Corresponding numbers are equal at the same time. -/
theorem InStep.eq_iff {i' j' : Nat} (hp : p ⊆ bodies root) (hq : q ⊆ bodies root')
    (hi : InStep root root' ps p q i i') (hj : InStep root root' ps p q j j') :
    i = j ↔ i' = j' := by
  have hlength := h.length_declared_le hp
  have hlength' := h.length_declared_le' hq
  obtain hi | ⟨k, rfl, rfl⟩ := hi
  · obtain hj | ⟨l, rfl, rfl⟩ := hj
    · exact hi.eq_iff h hj
    · have := hi.lt
      have := hi.lt'
      omega
  · obtain hj | ⟨l, rfl, rfl⟩ := hj
    · have := hj.lt
      have := hj.lt'
      omega
    · omega

omit h in
/-- The correspondence for visits of a declaration and its copy, after visits of others. Only what
is written in these two is compared. -/
def visitCorrespondence (h : Rearranged root root' ps) (hp : p ⊆ bodies root)
    (hq : q ⊆ bodies root') (d : Node) (compared : Nat → Prop) : Correspondence root root' :=
  h.correspondence [d] (InStep root root' ps p q) (fun hi hj => hi.eq_iff h hp hq hj) compared
    (fun i => (((visited root p).facts.bindings[i]?).map Binding.writes).getD [])
    fun j => (((visited root' q).facts.bindings[j]?).map Binding.writes).getD []

/-- A binding of the package keeps its name, kind and place through visits. -/
theorem exists_twins (hp : p ⊆ bodies root) (hq : q ⊆ bodies root')
    (hij : Paired root root' ps i j) :
    ∃ b b', (visited root p).facts.bindings[i]? = some b ∧
      (visited root' q).facts.bindings[j]? = some b' ∧ b'.name = b.name ∧ BindingKind.Alike
        (fun n n' => (n, n') ∈ ps) b.kind b'.kind ∧
      (b.decl, b'.decl) ∈ ps ∧ b.scope = root ∧ b'.scope = root' := by
  obtain ⟨c, c', hc, hc', htwins⟩ := hij
  obtain ⟨b, hb, hgrows, -⟩ := (within_declared h.wf h.names hp).kept i c hc
  obtain ⟨b', hb', hgrows', -⟩ := (within_declared h.wf' h.names' hq).kept j c' hc'
  have hname : b.name = c.name := congrArg Binding.View.name hgrows.view
  have hname' : b'.name = c'.name := congrArg Binding.View.name hgrows'.view
  have hkind : b.kind = c.kind := congrArg Binding.View.kind hgrows.view
  have hkind' : b'.kind = c'.kind := congrArg Binding.View.kind hgrows'.view
  have hdecl : b.decl = c.decl := congrArg Binding.View.decl hgrows.view
  have hdecl' : b'.decl = c'.decl := congrArg Binding.View.decl hgrows'.view
  have hscope : b.scope = c.scope := congrArg Binding.View.scope hgrows.view
  have hscope' : b'.scope = c'.scope := congrArg Binding.View.scope hgrows'.view
  refine ⟨b, b', hb, hb', ?_, ?_, ?_, ?_, ?_⟩
  · rw [hname, hname', htwins.name]
  · rw [hkind, hkind']
    exact htwins.kind
  · rw [hdecl, hdecl']
    exact htwins.decl
  · rw [hscope, (unwritten_of_mem_declared (List.mem_of_getElem? hc)).1]
  · rw [hscope', (unwritten_of_mem_declared (List.mem_of_getElem? hc')).1]

omit h in
/-- Corresponding bindings before visits of a declaration and its copy: those of the package, as the
visits add theirs only then. -/
theorem InStep.rel_before {R : Binding → Binding → Prop} (hij : InStep root root' ps p q i j)
    (h : Paired root root' ps i j → Option.Rel R (visited root p).facts.bindings[i]?
      (visited root' q).facts.bindings[j]?) :
    Option.Rel R (visited root p).facts.bindings[i]? (visited root' q).facts.bindings[j]? := by
  obtain hij | ⟨k, rfl, rfl⟩ := hij
  · exact h hij
  · rw [List.getElem?_eq_none (Nat.le_add_right ..), List.getElem?_eq_none (Nat.le_add_right ..)]
    exact .none

/-- What is known before visits of a declaration and its copy. -/
theorem facts_before (hsplit : p ++ d :: rest = bodies root)
    (hsplit' : q ++ d' :: rest' = bodies root') (hp : p ⊆ bodies root) (hq : q ⊆ bodies root')
    (hdd : (d, d') ∈ ps) (compared : Nat → Prop)
    (htypes : ∀ {i j}, Paired root root' ps i j → compared i →
      Option.Rel (fun b b' => b'.type = b.type) (visited root p).facts.bindings[i]?
        (visited root' q).facts.bindings[j]?) :
    (visited root p).facts.Like (h.visitCorrespondence hp hq d compared)
    (visited root' q).facts := by
  have hwithin := within_declared h.wf h.names hp
  have hwithin' := within_declared h.wf' h.names' hq
  -- nothing in `d` has been visited, so its names stand for what they did after the first round
  have huse : ∀ {n}, n ∈ preorderAll [d] →
      (visited root p).facts.useOf n = (declared root).facts.useOf n :=
    fun hn => useOf_visited h.wf hsplit (by simpa using hn)
  have huse' : ∀ {n n'}, (n, n') ∈ ps → n ∈ preorderAll [d] →
      (visited root' q).facts.useOf n' = (declared root').facts.useOf n' := fun hp hn =>
    useOf_visited h.wf' hsplit' ((h.mem_preorder_iff h.wf h.wf' hdd hp).1 (by simpa using hn))
  exact
    { root_eq := by rw [hwithin.root_eq, (sound_declared h.wf).root_eq]
      root_eq' := by rw [hwithin'.root_eq, (sound_declared h.wf').root_eq]
      imports := by
        rw [hwithin.imports, hwithin'.imports, imports_declared, imports_declared, h.imports_eq]
      results := fun hname => by rw [hwithin.results, hwithin'.results, h.results_declared hname]
      fieldTypes := fun key => by
        rw [hwithin.fieldTypes, hwithin'.fieldTypes, h.fieldTypes_declared]
      uses := fun hN => by
        rw [huse hN.2, huse' hN.1 hN.2]
        exact rel_mono (h.useOf_declared hN.1) fun _ _ hij => .inl hij
      bindings := fun hij => hij.rel_before fun hij => by
        obtain ⟨b, b', hb, hb', hname, hkind, hdecl, hscope, hscope'⟩ := h.exists_twins hp hq hij
        rw [hb, hb']
        exact .some ⟨hname, hkind, hdecl, trivial, .inr ⟨hscope, hscope'⟩⟩
      writes := fun hij => hij.rel_before fun hij => by
        obtain ⟨b, b', hb, hb', -⟩ := h.exists_twins hp hq hij
        rw [hb, hb']
        refine .some ⟨[], [], ?_, ?_, .nil⟩
        · simp [visitCorrespondence, correspondence, hb]
        · simp [visitCorrespondence, correspondence, hb']
      types := fun _ hij hcompared => hij.rel_before fun hij => htypes hij hcompared
      blank := fun hN hused htext => h.isTitle_of_declared (preorder_of_inner (h.mem_left hN.1))
        ((huse hN.2).symm.trans hused) htext }

/-- Resolvers before visits of a declaration and its copy. -/
theorem like_before (hsplit : p ++ d :: rest = bodies root)
    (hsplit' : q ++ d' :: rest' = bodies root') (hp : p ⊆ bodies root) (hq : q ⊆ bodies root')
    (hdd : (d, d') ∈ ps) (compared : Nat → Prop)
    (hfresh : ∀ k, compared ((visited root p).facts.bindings.length + k))
    (htypes : ∀ {i j}, Paired root root' ps i j → compared i →
      Option.Rel (fun b b' => b'.type = b.type) (visited root p).facts.bindings[i]?
        (visited root' q).facts.bindings[j]?) :
    (visited root p).Like (h.visitCorrespondence hp hq d compared) 1 (visited root' q) := by
  obtain ⟨names, hframes⟩ := frames_declared h.wf
  obtain ⟨names', hframes'⟩ := frames_declared h.wf'
  have hkept := (within_declared h.wf h.names hp).frames_eq.trans hframes
  have hkept' := (within_declared h.wf' h.names' hq).frames_eq.trans hframes'
  exact
    { facts := h.facts_before hsplit hsplit' hp hq hdd compared htypes
      frames := by
        rw [hkept, hkept']
        refine .cons ⟨.inr ⟨rfl, rfl⟩, fun {name} hname => ?_⟩ .nil
        have hlookup := h.lookup_declared hname
        rw [lookup_of_frames hframes, lookup_of_frames hframes'] at hlookup
        exact rel_mono hlookup fun _ _ hij => .inl hij
      depth_eq := by rw [hkept]; rfl
      fresh := fun k => .inr ⟨k, rfl, rfl⟩
      compared := hfresh
      unwritten := fun k => by simp [visitCorrespondence, correspondence]
      unwritten' := fun k => by simp [visitCorrespondence, correspondence] }

/-- A declaration and its copy are resolved alike, whatever was visited before. -/
theorem like_visit (hsplit : p ++ d :: rest = bodies root)
    (hsplit' : q ++ d' :: rest' = bodies root') (hp : p ⊆ bodies root) (hq : q ⊆ bodies root')
    (hdd : (d, d') ∈ ps) (compared : Nat → Prop)
    (hfresh : ∀ k, compared ((visited root p).facts.bindings.length + k))
    (htypes : ∀ {i j}, Paired root root' ps i j → compared i →
      Option.Rel (fun b b' => b'.type = b.type) (visited root p).facts.bindings[i]?
        (visited root' q).facts.bindings[j]?) :
    (visited root (p ++ [d])).Like (h.visitCorrespondence hp hq d compared) 1
      (visited root' (q ++ [d'])) := by
  have hd : d ∈ bodies root := hsplit ▸ by simp
  rw [visited_concat, visited_concat]
  exact (h.like_before hsplit hsplit' hp hq hdd compared hfresh htypes).visitDeclaration
    ⟨hdd, by simp⟩ (List.mem_filter.1 hd).2

end

end Rearranged

end Handoff

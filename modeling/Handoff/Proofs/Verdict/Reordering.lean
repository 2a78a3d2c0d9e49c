import Handoff.Proofs.Resolution.Dependence
import Handoff.Proofs.Resolution.Provenance
import Handoff.Proofs.Verdict.Repeats

/-!
# Verdicts on reordered files

Two files hold the same declarations, and those that depend on one another stand in the same order.
What is written to a binding then reaches a name in the one file just where it does in the other: in
one declaration the distances are the same, and a declaration that writes to a binding depends on
every other that mentions it. So one file repeats the other.

## Main statements

* `Rearranged.supply`: a declaration that gives a value to a binding changes and mentions it.
* `Rearranged.apart`: nodes of declarations that depend on one another stand in the same order in
  both files.
* `Rearranged.repeats`: a file repeats one with the same declarations.
-/

namespace Handoff

open Syntax Node Resolver

/-! ### Order in a list -/

section Lists

variable {α β : Type} {R : α → β → Prop}

/-- A part of the second list is the counterpart of a part of the first. -/
theorem rel_sublist_right {l : List α} {l' k' : List β} (h : List.Forall₂ R l l')
    (hk : k'.Sublist l') : ∃ k, k.Sublist l ∧ List.Forall₂ R k k' := by
  induction hk generalizing l with
  | slnil => exact ⟨[], List.nil_sublist _, .nil⟩
  | cons _ _ ih =>
    obtain ⟨a, t, -, ht, rfl⟩ := List.forall₂_cons_right_iff.1 h
    obtain ⟨k, hk, hrel⟩ := ih ht
    exact ⟨k, hk.cons a, hrel⟩
  | cons_cons _ _ ih =>
    obtain ⟨a, t, hab, ht, rfl⟩ := List.forall₂_cons_right_iff.1 h
    obtain ⟨k, hk, hrel⟩ := ih ht
    exact ⟨a :: k, hk.cons_cons a, .cons hab hrel⟩

/-- Lists with the same elements give the same, where those that give something stand in the same
order. -/
theorem flatMap_eq_of_order {l l' : List α} {f : α → List β} (hperm : l.Perm l') (hl' : l'.Nodup)
    (horder : ∀ {a b}, [a, b].Sublist l → f a ≠ [] → f b ≠ [] → [a, b].Sublist l') :
    l.flatMap f = l'.flatMap f := by
  have hskip : ∀ k : List α, k.flatMap f = (k.filter fun a => !(f a).isEmpty).flatMap f := fun k =>
    (flatMap_filter_of_nil fun a _ ha => by simpa using ha).symm
  have hpairs : (l.filter fun a => !(f a).isEmpty).Pairwise fun a b => [a, b].Sublist l' := by
    refine List.pairwise_iff_forall_sublist.2 fun {a b} hab => ?_
    have hmem : ∀ c ∈ [a, b], f c ≠ [] := fun c hc => by
      simpa using (List.mem_filter.1 (hab.subset hc)).2
    exact horder (hab.trans List.filter_sublist) (hmem a (by simp)) (hmem b (by simp))
  have hpairs' : (l'.filter fun a => !(f a).isEmpty).Pairwise fun a b => [a, b].Sublist l' :=
    List.pairwise_iff_forall_sublist.2 fun hab => hab.trans List.filter_sublist
  rw [hskip l, hskip l', List.Perm.eq_of_pairwise (by
    intro a b _ _ hab hba
    exact absurd hba (not_sublist_swap hl' hab)) hpairs hpairs' (hperm.filter _)]

end Lists

/-- An assignment to a field or an element of a binding changes the binding. -/
theorem Resolution.changedIn_of_memberWrite {r : Resolution} {d n : Node} {key : Search.Key}
    {i : Nat} {b : Binding} {s : Search.Supply} (hs : s ∈ Search.memberWritesAt r key i b n)
    (hn : n ∈ d.preorder) :
    r.changedIn d i = true ∧ ∃ name ∈ n.preorder, name.kind = .identifier ∧
      r.useOf name = some i := by
  obtain ⟨hkind, -, left, right, target, value, operand, hleft, -, htarget, -, -, hoperand,
      hident, huse, hkey⟩ :=
    Search.mem_memberWritesAt hs
  have hmem : operand.bare ∈ n.preorder :=
    preorder_trans (preorder_of_child? hleft) (preorder_trans (expressions_subset htarget)
      (preorder_trans (bare_mem_preorder target) (preorder_trans (preorder_of_child? hoperand)
        (bare_mem_preorder operand))))
  have hselects : target.bare.kind = .selectorExpression ∨ target.bare.kind = .indexExpression := by
    cases key <;>
      simp only [Search.Key.isOf, Bool.and_eq_true, beq_iff_eq] at hkey <;> simp [hkey.1]
  have hassigns : r.assignsPart n i = true := by
    simp only [assignsPart, hkind, beq_self_eq_true, Bool.true_and, List.any_eq_true]
    exact ⟨target, by simpa [valuesIn, hleft] using htarget,
      by simp [hselects, hoperand, hident, huse]⟩
  refine ⟨?_, operand.bare, hmem, hident, huse⟩
  rw [changedIn, Bool.or_eq_true]
  exact .inr (List.any_eq_true.2 ⟨n, hn, hassigns⟩)

namespace Rearranged

variable {root root' f f' n n' m m' s s' t t' d e : Node} {ps : List (Node × Node)} {i j : Nat}
  {b b' : Binding}

section

variable (h : Rearranged root root' ps)

include h

theorem node_of_mem (hp : (n, n') ∈ ps) : h.fileCorrespondence.node n n' := by
  obtain ⟨d, hd, -, -, -, hn, -⟩ := h.exists_declaration hp
  exact ⟨hp, mem_preorderAll.2 ⟨d, hd, hn⟩⟩

theorem replica : Replica h.fileCorrespondence.node where
  kind hN := h.kind hN.1
  field hN := (h.label hN.1).field
  text hN := h.text hN.1
  parts hN := (h.parts hN.1).imp fun _ _ hp => h.node_of_mem hp
  inField f hN := (h.likeness.inField f hN.1).imp fun _ _ hp => h.node_of_mem hp
  hasToken hN := h.likeness.hasToken hN.1

theorem length (hp : (n, n') ∈ ps) : n'.stop + n.start = n.stop + n'.start := by
  obtain ⟨d, -, d', -, -, -, -, hstart, hstop⟩ := h.exists_declaration hp
  omega

/-- A declaration that gives a value to a binding changes and mentions it. -/
theorem supply (hb : (Resolution.ofFile root).bindings[i]? = some b)
    (hs : (Resolution.ofFile root).IsSupply i b s) (hd : d ∈ root.parts) (hsd : s ∈ d.preorder) :
    (Resolution.ofFile root).changedIn d i = true ∧
      (Resolution.ofFile root).mentionedIn d i = true ∧ s.start < s.stop := by
  have hmem : s ∈ root.preorder := preorder_trans (preorder_of_inner (inner_of_mem_filter hd)) hsd
  have hnonempty : ∀ name ∈ s.preorder, name.kind.isName = true → s.start < s.stop :=
      fun name hname hkind => by
    have hin := h.wf.start_le hmem hname
    have hlong := h.wf.nonempty name (preorder_trans hmem hname) hkind
    omega
  obtain ⟨w, hw, rfl⟩ | ⟨key, supply, hsupply, rfl⟩ := hs
  · have hgrounded := Resolution.grounded_of_wellFormed h.wf (by rw [h.isFile]; rfl)
    obtain ⟨name, hname, hkind⟩ := (hgrounded.binding _ (List.mem_of_getElem? hb)).named w hw
    have hwritten : (Resolution.ofFile root).WrittenIn d i := ⟨b, hb, w, hw, hsd⟩
    obtain ⟨e, he, hse⟩ :=
      mem_preorderAll.1 (writes_visited h.wf h.names (List.Subset.refl _) hb w hw).site
    obtain rfl : d = e := h.wf.distinct.child_eq (List.mem_of_mem_filter hd)
      (List.mem_of_mem_filter (List.mem_of_mem_filter he)) hsd hse rfl
    exact ⟨Resolution.changedIn_of_writtenIn hwritten,
      Resolution.mentionedIn_iff.2 (mention_of_writtenIn h.wf h.names he hwritten),
        hnonempty name hname hkind⟩
  · obtain ⟨site, -, hsupply⟩ := List.mem_flatMap.1 hsupply
    obtain rfl := (Search.mem_memberWritesAt hsupply).2.1
    obtain ⟨hchanged, name, hname, hkind, huse⟩ := Resolution.changedIn_of_memberWrite hsupply hsd
    exact ⟨hchanged, Resolution.mentionedIn_iff.2
      ⟨name, preorder_trans hsd hname, mem_of_lookup huse⟩, hnonempty name hname
      (by rw [hkind]; rfl)⟩

variable (hkept : KeepsOrder root root' ps)

include hkept

/-- Nodes of declarations that depend on one another stand in the same order in both files. -/
theorem apart (hd : d ∈ root.parts) (he : e ∈ root.parts) (hne : d ≠ e)
    (hdependent : (Resolution.ofFile root).dependent d e = true) (hn : n ∈ d.preorder)
    (hm : m ∈ e.preorder) (hp : (n, n') ∈ ps) (hq : (m, m') ∈ ps) :
    n.stop ≤ m.start ∧ n'.stop ≤ m'.start ∨ m.stop ≤ n.start ∧ m'.stop ≤ n'.start := by
  obtain ⟨d', hd', hdd⟩ := h.exists_part_right hd
  obtain ⟨e', he', hee⟩ := h.exists_part_right he
  have hn' := (h.mem_preorder_iff h.wf h.wf' hdd hp).1 hn
  have hm' := (h.mem_preorder_iff h.wf h.wf' hee hq).1 hm
  have hin : ∀ {file d n : Node}, file.WellFormed → d ∈ file.parts → n ∈ d.preorder →
      d.start ≤ n.start ∧ n.stop ≤ d.stop := fun wf hd hn =>
    wf.start_le (preorder_of_inner (inner_of_mem_filter hd)) hn
  have hnd := hin h.wf hd hn
  have hme := hin h.wf he hm
  have hnd' := hin h.wf' hd' hn'
  have hme' := hin h.wf' he' hm'
  obtain hsub | hsub := sublist_pair_or hd he hne
  · have hle := h.wf.stop_le_start hsub
    have hle' := h.wf'.stop_le_start (hkept hdd hee hsub hdependent)
    omega
  · rw [Resolution.dependent_comm] at hdependent
    have hle := h.wf.stop_le_start hsub
    have hle' := h.wf'.stop_le_start (hkept hee hdd hsub hdependent)
    omega

/-- Writes to a binding keep their order, since declarations that depend on one another do. -/
theorem start_le (hb : (Resolution.ofFile root).bindings[i]? = some b)
    (hs : (Resolution.ofFile root).IsSupply i b s) (ht : (Resolution.ofFile root).IsSupply i b t)
    (hp : (s, s') ∈ ps) (hq : (t, t') ∈ ps) : s'.start ≤ t'.start ↔ s.start ≤ t.start := by
  obtain ⟨d, hd, -, -, -, hsd, -⟩ := h.exists_declaration hp
  obtain ⟨e, he, -, -, -, hte, -⟩ := h.exists_declaration hq
  by_cases hne : d = e
  · subst hne
    exact h.start_le_iff h.wf h.wf' hd hp hsd hq hte
  · obtain ⟨hchanged, -, hlong⟩ := h.supply hb hs hd hsd
    obtain ⟨-, hmentioned, hlong'⟩ := h.supply hb ht he hte
    have hdependent :=
      Resolution.dependent_of_changedIn (List.getElem?_eq_some_iff.1 hb).1 hchanged hmentioned
    have hapart := h.apart hkept hd he hne hdependent hsd hte hp hq
    have hlength := h.length hp
    have hlength' := h.length hq
    omega

/-- What is written to a binding stands before a name, or around it, just where its copy does. -/
theorem reaches (hb : (Resolution.ofFile root).bindings[i]? = some b)
    (hs : (Resolution.ofFile root).IsSupply i b s) (hn : n ∈ t.preorder)
    (hkind : n.kind = .identifier) (huse : (Resolution.ofFile root).useOf n = some i)
    (hp : (s, s') ∈ ps) (hq : (t, t') ∈ ps) :
    (s'.start < t'.start ↔ s.start < t.start) ∧ s'.encloses t' = s.encloses t := by
  obtain ⟨d, hd, -, -, -, hsd, -⟩ := h.exists_declaration hp
  obtain ⟨e, he, -, -, -, hte, -⟩ := h.exists_declaration hq
  by_cases hne : d = e
  · subst hne
    have hstart := h.start_le_iff h.wf h.wf' hd hq hte hp hsd
    exact ⟨by omega, h.encloses h.wf h.wf' hd hp hsd hq hte⟩
  · obtain ⟨hchanged, -, hlong⟩ := h.supply hb hs hd hsd
    have hmentioned : (Resolution.ofFile root).mentionedIn e i = true :=
      Resolution.mentionedIn_iff.2 ⟨n, preorder_trans hte hn, mem_of_lookup huse⟩
    have hdependent :=
      Resolution.dependent_of_changedIn (List.getElem?_eq_some_iff.1 hb).1 hchanged hmentioned
    have hapart := h.apart hkept hd he hne hdependent hsd hte hp hq
    have hmem := preorder_of_inner (h.mem_left hq)
    have hin := h.wf.start_le hmem hn
    have hlong' := h.wf.nonempty n (preorder_trans hmem hn) (by rw [hkind]; rfl)
    have hlength := h.length hp
    have hlength' := h.length hq
    refine ⟨by omega, ?_⟩
    rw [Bool.eq_iff_iff]
    simp only [Node.encloses, Span.contains, Bool.and_eq_true, decide_eq_true_eq]
    change s'.start ≤ t'.start ∧ t'.stop ≤ s'.stop ↔ s.start ≤ t.start ∧ t.stop ≤ s.stop
    omega

/-- Resolutions of a file and its rearrangement mirror one another. -/
theorem mirrors : (Resolution.ofFile root).Mirrors h.fileCorrespondence
    (Resolution.ofFile root') where
  toLike := h.like hkept
  node_of_content hp := h.node_of_mem hp
  compared _ := trivial
  earlier _ := rfl
  earlier' _ := rfl
  length_eq := h.length_eq hkept
  encloses {n n' b b'} hN hcomment hb _ hlocal hdecl := by
    have hgrounded := Resolution.grounded_of_wellFormed h.wf (by rw [h.isFile]; rfl)
    have hname := ((hgrounded.binding b hb).of_isLocal hlocal).1
    rw [Bool.eq_iff_iff, h.wf.encloses_name_iff (preorder_of_inner (h.mem_left hN.1))
      (preorder_of_inner (h.mem_left hdecl.1)) hcomment hname,
      h.wf'.encloses_name_iff (preorder_of_inner (h.mem_right hN.1))
        (preorder_of_inner (h.mem_right hdecl.1)) (by rwa [h.kind hN.1]) (by rwa [h.kind hdecl.1])]
    exact (h.mem_preorder_iff h.wf h.wf' hN.1 hdecl.1).symm

/-! ### Bindings -/

omit hkept in
/-- A function and a binding that is used in it stand in one declaration, unless the package
declares the binding. -/
theorem exists_declaration_of_use (hf : f ∈ root.inner) (hn : n ∈ f.preorder)
    (huse : (Resolution.ofFile root).useOf n = some i)
    (hb : (Resolution.ofFile root).bindings[i]? = some b) (hlevel : b.kind.isPackageLevel = false) :
    ∃ d ∈ root.parts, f ∈ d.preorder ∧ b.decl ∈ d.preorder := by
  have hsound := sound_visited h.wf (List.Sublist.refl (bodies root))
  have hview := getElem?_views (s := visited root (bodies root)) hb
  have hi : (declared root).facts.bindings.length ≤ i := by
    refine Nat.le_of_not_lt fun hi => ?_
    obtain ⟨c, hc, hgrows, -⟩ :=
      (within_declared h.wf h.names (List.Subset.refl _)).kept i _ (List.getElem?_eq_getElem hi)
    obtain rfl := Option.some.inj (hb.symm.trans hc)
    have hkind : b.kind = _ := congrArg Binding.View.kind hgrows.view
    rw [hkind] at hlevel
    cases hlevel.symm.trans (isPackageLevel_of_mem_declared (List.getElem_mem hi))
  obtain ⟨d, hd, hscope⟩ := scope_mem_bodies h.wf h.names hi hb
  have hd := List.mem_of_mem_filter hd
  have hn' := (hsound.used n (preorder_trans (preorder_of_inner hf) hn) i b.view huse hview).2.1
  have hdecl := (hsound.declared i b.view hview).2.2.1
  refine ⟨d, hd, ?_, preorder_trans hscope (preorder_of_inner hdecl)⟩
  obtain ⟨c, hc, hfc⟩ := mem_inner.1 hf
  obtain rfl : c = d := h.wf.distinct.child_eq hc (List.mem_of_mem_filter hd)
    (preorder_trans hfc hn) (preorder_trans hscope (preorder_of_inner hn')) rfl
  exact hfc

/-- A variable is captured by a function just when its counterpart is by the copy. -/
theorem isCaptured (hf : (f, f') ∈ ps) (hn : n ∈ f.preorder)
    (huse : (Resolution.ofFile root).useOf n = some i) (hij : Numbered root root' ps i j) :
    FunctionUnit.isCaptured (Resolution.ofFile root') f' j =
      FunctionUnit.isCaptured (Resolution.ofFile root) f i := by
  obtain ⟨hb, hb'⟩ | ⟨b, b', hb, hb', hagree⟩ := rel_cases (h.agree hkept hij)
  · simp [FunctionUnit.isCaptured, hb, hb']
  have hlevel : b'.kind.isPackageLevel = b.kind.isPackageLevel := by
    have hkind := hagree.1.kind
    generalize b.kind = kind, b'.kind = kind' at hkind
    cases hkind <;> rfl
  simp only [FunctionUnit.isCaptured, hb, hb', hlevel]
  cases hpackage : b.kind.isPackageLevel with
  | true => rfl
  | false =>
    obtain ⟨d, hd, hfd, hdecl⟩ := h.exists_declaration_of_use (h.mem_left hf) hn huse hb hpackage
    rw [h.encloses h.wf h.wf' hd hf hfd hagree.1.decl hdecl]

section

variable {key key' : Search.Key} (hij : Numbered root root' ps i j)
  (hb : (Resolution.ofFile root).bindings[i]? = some b)
  (hb' : (Resolution.ofFile root').bindings[j]? = some b')
  (hkey : Search.Key.Alike h.fileCorrespondence.node key key')

include hij hb hb' hkey

/-- A declaration and its copy write the same to a field or an element of a binding. -/
theorem memberWrites_declaration (hp : (d, d') ∈ ps) :
    List.Forall₂ (Search.Supply.Alike h.fileCorrespondence.node)
      ((d.preorder.filter (·.kind == .assignmentStatement)).flatMap
        (Search.memberWritesAt (Resolution.ofFile root) key i b))
      ((d'.preorder.filter (·.kind == .assignmentStatement)).flatMap
        (Search.memberWritesAt (Resolution.ofFile root') key' j b')) := by
  have hagree := h.agree hkept hij
  rw [hb, hb', Option.rel_some_some] at hagree
  refine List.rel_flatMap (List.rel_filter (fun _ _ hp => by simp [h.kind hp]) (h.preorder hp)) ?_
  intro n n' hp
  exact (h.mirrors hkept).memberWritesAt h.replica hkey hij hagree.1.scope (h.node_of_mem hp)

/-- A declaration that writes to a field or an element of a binding changes the binding and mentions
it. -/
theorem changedIn_of_memberWrites (hp : (d, d') ∈ ps)
    (hne : (d'.preorder.filter (·.kind == .assignmentStatement)).flatMap
      (Search.memberWritesAt (Resolution.ofFile root') key' j b') ≠ []) :
    (Resolution.ofFile root).changedIn d i = true ∧
      (Resolution.ofFile root).mentionedIn d i = true := by
  obtain ⟨s', hs'⟩ := List.exists_mem_of_ne_nil _ hne
  obtain ⟨s, hs, -⟩ := rel_mem_right (h.memberWrites_declaration hkept hij hb hb' hkey hp) hs'
  obtain ⟨n, hn, hs⟩ := List.mem_flatMap.1 hs
  have hn := List.mem_of_mem_filter hn
  obtain ⟨hchanged, name, hname, -, huse⟩ := Resolution.changedIn_of_memberWrite hs hn
  exact ⟨hchanged, Resolution.mentionedIn_iff.2 ⟨name, preorder_trans hn hname, mem_of_lookup huse⟩⟩

/-- What is written to a field or an element of a binding is written in the same order. -/
theorem memberWrites :
    List.Forall₂ (Search.Supply.Alike h.fileCorrespondence.node)
      (Search.memberWrites (Resolution.ofFile root) key i b)
      (Search.memberWrites (Resolution.ofFile root') key' j b') := by
  have hmirrors := h.mirrors hkept
  obtain ⟨copies, hcopies, hperm, -⟩ := h.exists_copies
  have hparts := hcopies.aligned.forall₂
  have hpart : ∀ m : Node, (m.kind == .assignmentStatement) = true →
      m.isPart = true := fun m hm => by
    simp [isPart, eq_of_beq hm, Kind.isNamed]
  rw [Search.memberWrites_eq, Search.memberWrites_eq, hmirrors.root_eq, hmirrors.root_eq',
    h.wf.filter_preorder (by simp [h.isFile]) hpart, h.wf'.filter_preorder
      (by simp [h.isFile']) hpart,
    List.flatMap_assoc, List.flatMap_assoc, ← flatMap_eq_of_order hperm h.wf'.nodup_parts]
  · exact List.rel_flatMap hparts fun _ _ hp => h.memberWrites_declaration hkept hij hb hb' hkey hp
  · intro d' e' hsub hd' he'
    -- both declarations write to the binding, so they depend on one another
    obtain ⟨_, hk, _ | ⟨hdd, _ | ⟨hee, _ | _⟩⟩⟩ := rel_sublist_right hparts hsub
    have hchanged := (h.changedIn_of_memberWrites hkept hij hb hb' hkey hdd hd').1
    have hmentioned := (h.changedIn_of_memberWrites hkept hij hb hb' hkey hee he').2
    exact hkept hdd hee hk
      (Resolution.dependent_of_changedIn (List.getElem?_eq_some_iff.1 hb).1 hchanged hmentioned)

end

end

end Rearranged

end Handoff

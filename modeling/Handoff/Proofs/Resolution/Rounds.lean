import Handoff.Proofs.Resolution.Declared

/-!
# The two rounds of a resolution

After the first round, the second visits the declarations with a body. Each visit stays in its
declaration. So a binding of the package changes only in the declarations that write to it, and a
binding of a function only in the declaration around it.

## Main definitions

* `Resolver.visited`: the resolver after visits of some declarations.
* `Resolution.WrittenIn`: a declaration writes to a binding.

## Main statements

* `Resolver.within_visited`: a series of visits stays in the declarations visited.
* `Resolver.contents_visited`: declarations that do not write to a binding leave its contents alone.
* `Resolver.exists_visit`: every binding of a function is added by the visit of one declaration.
-/

namespace Handoff

open Syntax Node

def Resolution.WrittenIn (r : Resolution) (d : Node) (i : Nat) : Prop :=
  ∃ b, r.bindings[i]? = some b ∧ ∃ w ∈ b.writes, w.site ∈ d.preorder

namespace Resolver

variable {root d n : Node} {p q ds : List Node} {i : Nat} {b : Binding} {name : String}

/-- The declarations that the second round visits. -/
def bodies (root : Node) : List Node :=
  root.parts.filter hasBody

def visited (root : Node) (ds : List Node) : Resolver :=
  ds.foldl (fun s d => s.visit none d) (declared root)

theorem ofFile_eq_visited (root : Node) : Resolution.ofFile root =
    (visited root (bodies root)).facts := rfl

theorem visited_append (root : Node) (p q : List Node) :
    visited root (p ++ q) = q.foldl (fun s d => s.visit none d) (visited root p) :=
  List.foldl_append

theorem visited_concat (root : Node) (p : List Node) (d : Node) :
    visited root (p ++ [d]) = (visited root p).visit none d :=
  visited_append root p [d]

/-! ### After the first round -/

theorem imports_declared (root : Node) : (declared root).facts.imports = .ofFile root :=
  (collects_declared root).imports_eq

theorem unwritten_of_mem_declared (hb : b ∈ (declared root).facts.bindings) : b.scope = root ∧
    b.writes = [] := by
  rw [bindings_declared] at hb
  obtain ⟨d, -, hb⟩ := List.mem_flatMap.1 hb
  obtain ⟨-, name, -, rfl⟩ | ⟨-, spec, -, -, name, -, -, rfl⟩ := packageBindings_cases hb
  · exact ⟨rfl, rfl⟩
  · exact ⟨rfl, rfl⟩

theorem isPackageLevel_of_mem_declared (hb : b ∈ (declared root).facts.bindings) :
    b.kind.isPackageLevel = true := by
  rw [bindings_declared] at hb
  obtain ⟨d, -, hb⟩ := List.mem_flatMap.1 hb
  obtain ⟨-, name, -, rfl⟩ | ⟨-, spec, -, -, name, -, -, rfl⟩ := packageBindings_cases hb
  · rfl
  · rfl

theorem lookup_of_frames {s : Resolver} {names : List (String × Nat)}
    (h : s.frames = [⟨root, names⟩]) (name : String) : s.lookup name = names.lookup name := by
  rw [lookup, h, List.findSome?_cons, List.findSome?_nil]
  cases names.lookup name <;> rfl

theorem getElem?_views {s : Resolver} (hb : s.facts.bindings[i]? = some b) :
    s.views[i]? = some b.view := by
  rw [views, List.getElem?_map, hb, Option.map_some]

section

variable (wf : root.WellFormed)

include wf

theorem sound_declared : (declared root).Sound root :=
  (declares_package wf).sound

theorem frames_declared : ∃ names, (declared root).frames = [⟨root, names⟩] := by
  have hscopes : (declared root).scopes = [root] := (declares_package wf).scopes_eq
  rw [scopes, List.map_eq_singleton_iff] at hscopes
  obtain ⟨⟨scope, names⟩, hframes, rfl⟩ := hscopes
  exact ⟨names, hframes⟩

/-- After the first round an identifier stands for the binding that it declares. -/
theorem useOf_declared_iff (hn : n ∈ root.preorder) : (declared root).facts.useOf n = some i ↔
    ∃ b, (declared root).facts.bindings[i]? = some b ∧ b.decl = n := by
  have hsound := sound_declared wf
  constructor
  · intro huse
    obtain ⟨v, hv⟩ := hsound.view_of_useOf huse
    obtain ⟨b, hb, rfl⟩ := by simpa [views] using hv
    refine ⟨b, hb, ?_⟩
    by_contra hne
    have hin : n ∈ root.inner := by
      have hscope := (hsound.used n hn i b.view huse hv).2.1
      rwa [show b.view.scope =
        root from (unwritten_of_mem_declared (List.mem_of_getElem? hb)).1] at hscope
    exact absurd ((declares_package wf).before n hn hin ⟨i, b.view, huse, hv, fun h => hne h.symm⟩)
      (Nat.not_lt_zero _)
  · rintro ⟨b, hb, rfl⟩
    exact (hsound.declared i b.view (getElem?_views hb)).1

variable (hnames : (root.parts.flatMap declaredNames).Nodup)

include hnames

/-- After the first round a name stands for the binding of that name. -/
theorem lookup_declared_iff (hblank : name ≠ "_") : (declared root).lookup name = some i ↔
    ∃ b, (declared root).facts.bindings[i]? = some b ∧ b.name = name := by
  have hsound := sound_declared wf
  obtain ⟨names, hframes⟩ := frames_declared wf
  have hframe : (⟨root, names⟩ : Frame) ∈ (declared root).frames := by
    rw [hframes]
    exact List.mem_singleton_self _
  have hof : ∀ {i}, names.lookup name = some i →
      ∃ b, (declared root).facts.bindings[i]? = some b ∧ b.name = name := by
    intro i hi
    obtain ⟨v, hv, hname, -⟩ := hsound.bound _ hframe _ (mem_of_lookup hi)
    obtain ⟨b, hb, rfl⟩ := by simpa [views] using hv
    exact ⟨b, hb, hname⟩
  rw [lookup_of_frames hframes]
  refine ⟨hof, ?_⟩
  rintro ⟨b, hb, rfl⟩
  have hknown := hsound.known _ hframe b.view (List.mem_of_getElem? (getElem?_views hb))
    ((unwritten_of_mem_declared (List.mem_of_getElem? hb)).1)
  obtain ⟨j, hj⟩ := Option.isSome_iff_exists.1 hknown
  obtain ⟨c, hc, hname⟩ := hof hj
  rw [show names.lookup b.name = some j from hj, number_eq_of_name hnames hb hc hname.symm hblank]

/-- The names of every spec of the package are declared in the first round. -/
theorem entered_declared {spec : Node} (hd : d ∈ root.parts)
    (hkind : d.kind = .varDeclaration ∨ d.kind = .constDeclaration) (hspec : spec ∈ d.children)
    (hvalue : isValueSpec spec = true) : Entered (declared root) spec := by
  intro name hname hblank i hi
  have hmem :
      (⟨name.text, .packageVariable, name, none, root, (Imports.ofFile root).declaredType spec,
        []⟩ : Binding) ∈ packageBindings root (.ofFile root) d := by
    have hspecs : spec ∈ d.parts.filter isValueSpec :=
      List.mem_filter.2 ⟨mem_parts.2 ⟨hspec, isPart_of_isValueSpec hvalue⟩, hvalue⟩
    have hnamed : name ∈ (spec.inField .name).filter (·.text ≠ "_") :=
      List.mem_filter.2 ⟨hname, by simpa using hblank⟩
    rcases hkind with hk | hk <;> rw [packageBindings, hk] <;>
      exact List.mem_flatMap.2 ⟨spec, hspecs, List.mem_map.2 ⟨name, hnamed, rfl⟩⟩
  have hbinding :
      (⟨name.text, .packageVariable, name, none, root,
        (Imports.ofFile root).declaredType spec, []⟩ :
      Binding) ∈ (declared root).facts.bindings := by
    rw [bindings_declared]
    exact List.mem_flatMap.2 ⟨d, hd, hmem⟩
  obtain ⟨j, hj⟩ := List.mem_iff_getElem?.1 hbinding
  obtain rfl : j = i := Option.some.inj
    (((lookup_declared_iff wf hnames hblank).2 ⟨_, hj, rfl⟩).symm.trans hi)
  refine ⟨mem_of_lookup ((sound_declared wf).declared j _ (getElem?_views hj)).1, _, hj, ?_⟩
  rw [imports_declared]
  cases (Imports.ofFile root).declaredType spec with
  | none => exact .inl rfl
  | some t => exact .inr ⟨t, rfl⟩

/-! ### Visits -/

theorem within_concat (h : Within p (declared root) 1 (visited root p)) (hd : d ∈ bodies root) :
    Within [d] (visited root p) 1 (visited root (p ++ [d])) := by
  obtain ⟨hd, hbody⟩ := List.mem_filter.1 hd
  obtain ⟨names, hframes⟩ := frames_declared wf
  rw [visited_concat]
  refine .visitDeclaration (wf.child (List.mem_of_mem_filter hd)) hbody ?_ ?_
  · rw [h.frames_eq, hframes, List.length_singleton]
  · exact fun hkind spec hspec hvalue =>
      h.entered (entered_declared wf hnames hd hkind hspec hvalue)

theorem within_declared (hp : p ⊆ bodies root) : Within p (declared root) 1 (visited root p) := by
  induction p using List.reverseRecOn with
  | nil => exact .refl _
  | append_singleton p d ih =>
    obtain ⟨hp, hd⟩ := List.append_subset.1 hp
    exact (ih hp).trans (within_concat wf hnames (ih hp) (hd (List.mem_singleton_self d)))

/-- A series of visits stays in the declarations visited. -/
theorem within_visited (hp : p ⊆ bodies root) (hq : q ⊆ bodies root) :
    Within q (visited root p) 1 (visited root (p ++ q)) := by
  induction q using List.reverseRecOn with
  | nil =>
    rw [List.append_nil]
    exact .refl _
  | append_singleton q d ih =>
    obtain ⟨hq, hd⟩ := List.append_subset.1 hq
    rw [← List.append_assoc]
    exact (ih hq).trans (within_concat wf hnames
      (within_declared wf hnames (List.append_subset.2 ⟨hp, hq⟩)) (hd (List.mem_singleton_self d)))

omit hnames

theorem pairwise_apart_bodies : (bodies root).Pairwise Apart :=
  (wf.distinct.pairwise_apart (self_mem_preorder root)).sublist
    (List.filter_sublist.trans List.filter_sublist)

theorem nodup_bodies : (bodies root).Nodup :=
  wf.nodup_parts.filter _

/-- The declarations before and after one are apart from it. -/
theorem apart_of_split (h : p ++ d :: q = bodies root) : (∀ e ∈ p, e.Apart d) ∧
    ∀ e ∈ q, d.Apart e := by
  have hapart := h ▸ pairwise_apart_bodies wf
  obtain ⟨-, htail, hcross⟩ := List.pairwise_append.1 hapart
  exact ⟨fun e he => hcross e he d (List.mem_cons_self ..), (List.pairwise_cons.1 htail).1⟩

/-- The second round resolves the names in the declarations that it visits. -/
theorem advances_visited (h : (p ++ q).Sublist (bodies root)) :
    Advances root q (visited root p) (visited root (p ++ q)) := by
  have hall : ∀ {ds}, ds.Sublist (bodies root) →
    Advances root ds (declared root) (visited root ds) :=
      fun hds => advances_declarations wf (sound_declared wf)
        (fun d hd => (List.mem_filter.1 (hds.subset hd)).2) ((pairwise_apart_bodies wf).sublist hds)
      fun d hd => pending_package wf (List.mem_filter.1 (hds.subset hd)).1
  have hp := hall ((List.sublist_append_left p q).trans h)
  have hapart := (pairwise_apart_bodies wf).sublist h
  obtain ⟨-, hq, hcross⟩ := List.pairwise_append.1 hapart
  have hmem : ∀ d ∈ q, d ∈ bodies root := fun d hd => h.subset (List.mem_append_right _ hd)
  rw [visited_append]
  refine advances_declarations wf hp.sound (fun d hd => (List.mem_filter.1 (hmem d hd)).2)
    hq fun d hd => ?_
  refine (pending_package wf (List.mem_filter.1 (hmem d hd)).1).advance hp fun x hx => ?_
  obtain ⟨e, he, hx⟩ := mem_preorderAll.1 hx
  exact hcross e he d hd x hx

theorem sound_visited (h : p.Sublist (bodies root)) : (visited root p).Sound root :=
  (advances_visited (p := []) wf h).sound

/-! ### Names -/

omit wf in
theorem mem_of_split (h : p ++ d :: q = bodies root) : d ∈ root.preorder := by
  have hd : d ∈ bodies root := h ▸ by simp
  exact preorder_of_inner (inner_of_mem_filter (List.mem_of_mem_filter hd))

/-- Before a declaration is visited, its nodes stand for what the package declares. -/
theorem useOf_visited (h : p ++ d :: q = bodies root) (hn : n ∈ d.preorder) :
    (visited root p).facts.useOf n = (declared root).facts.useOf n := by
  have hsub : ([] ++ p).Sublist (bodies root) := by
    rw [← h]
    exact List.sublist_append_left ..
  refine (advances_visited wf hsub).useOf_eq n (preorder_trans (mem_of_split h) hn) fun hin => ?_
  obtain ⟨e, he, hin⟩ := mem_preorderAll.1 hin
  exact (apart_of_split wf h).1 e he n hin hn

/-- Once a declaration was visited, its nodes stand for what they stand for in the end. -/
theorem useOf_ofFile (h : p ++ d :: q = bodies root) (hn : n ∈ d.preorder) :
    (Resolution.ofFile root).useOf n = (visited root (p ++ [d])).facts.useOf n := by
  have hsplit : p ++ [d] ++ q = bodies root := by rw [← h, List.append_assoc]; rfl
  rw [ofFile_eq_visited, ← hsplit]
  refine (advances_visited wf (hsplit ▸ List.Sublist.refl _)).useOf_eq n
    (preorder_trans (mem_of_split h) hn) fun hin => ?_
  obtain ⟨e, he, hin⟩ := mem_preorderAll.1 hin
  exact (apart_of_split wf h).2 e he n hn hin

/-- A declaration without a body is not visited. -/
theorem useOf_of_not_body (hd : d ∈ root.parts) (hbody : hasBody d = false) (hn : n ∈ d.preorder) :
    (Resolution.ofFile root).useOf n = (declared root).facts.useOf n := by
  refine (advances_visited (p := []) wf (List.Sublist.refl (bodies root))).useOf_eq n
    (preorder_trans (preorder_of_inner (inner_of_mem_filter hd)) hn) fun hin => ?_
  obtain ⟨e, he, hin⟩ := mem_preorderAll.1 hin
  obtain ⟨he, hebody⟩ := List.mem_filter.1 he
  obtain rfl := wf.distinct.child_eq (List.mem_of_mem_filter he)
    (List.mem_of_mem_filter hd) hin hn rfl
  cases hbody.symm.trans hebody

/-! ### Contents of bindings -/

include hnames

/-- What was written to a binding was written in one of the declarations visited. -/
theorem writes_visited (hp : p ⊆ bodies root) (hb : (visited root p).facts.bindings[i]? = some b) :
    ∀ w ∈ b.writes, w.Within p := by
  have hwithin := within_declared wf hnames hp
  by_cases hi : i < (declared root).facts.bindings.length
  · obtain ⟨b', hb', hgrows, -⟩ := hwithin.kept i _ (List.getElem?_eq_getElem hi)
    obtain rfl := Option.some.inj (hb.symm.trans hb')
    obtain ⟨late, hlate, hwithin⟩ := hgrows.written
    rw [hlate, (unwritten_of_mem_declared (List.getElem_mem hi)).2, List.nil_append]
    exact hwithin
  · exact (hwithin.added i b (Nat.le_of_not_lt hi) hb).2

/-- Declarations that do not write to a binding leave its contents alone. -/
theorem contents_visited {rest : List Node} (h : p ++ q ++ rest = bodies root)
    (hb : (visited root p).facts.bindings[i]? = some b)
    (hunwritten : ∀ d ∈ q, ¬ (Resolution.ofFile root).WrittenIn d i) :
    ∃ b', (visited root (p ++ q)).facts.bindings[i]? = some b' ∧ b'.view = b.view ∧
      b'.writes = b.writes ∧ b'.type = b.type := by
  have hsub : ∀ {ds}, ds ⊆ p ++ q ++ rest → ds ⊆ bodies root := fun hds => h ▸ hds
  have hpq : p ++ q ⊆ bodies root := hsub (List.subset_append_left ..)
  obtain ⟨hp, hq⟩ := List.append_subset.1 hpq
  obtain ⟨b', hb', hgrows, -⟩ := (within_visited wf hnames hp hq).kept i b hb
  obtain ⟨b'', hb'', hgrows', -⟩ :=
    (within_visited wf hnames hpq (hsub (List.subset_append_right ..))).kept i b' hb'
  obtain ⟨late, hlate, hwithin⟩ := hgrows.written
  obtain ⟨later, hlater, -⟩ := hgrows'.written
  rw [h] at hb''
  have hnone : late = [] := by
    refine List.eq_nil_iff_forall_not_mem.2 fun w hw => ?_
    obtain ⟨d, hd, hsite⟩ := mem_preorderAll.1 (hwithin w hw).site
    refine hunwritten d hd ⟨b'', hb'', w, ?_, hsite⟩
    rw [hlater, hlate]
    simp [hw]
  have hsame : b'.writes = b.writes := by rw [hlate, hnone, List.append_nil]
  exact ⟨b', hb', hgrows.view, hsame, hgrows.unwritten hsame⟩

/-- A declaration writes to a binding just when its visit adds writes. -/
theorem writtenIn_iff {b' : Binding} (h : p ++ d :: q = bodies root)
    (hb : (visited root p).facts.bindings[i]? = some b)
    (hb' : (visited root (p ++ [d])).facts.bindings[i]? = some b') :
    (Resolution.ofFile root).WrittenIn d i ↔ b'.writes ≠ b.writes := by
  have hsplit : p ++ [d] ++ q = bodies root := by rw [← h, List.append_assoc]; rfl
  have hpd : p ++ [d] ⊆ bodies root := hsplit ▸ List.subset_append_left ..
  obtain ⟨hp, hd⟩ := List.append_subset.1 hpd
  have hq : q ⊆ bodies root := hsplit ▸ List.subset_append_right ..
  obtain ⟨c, hc, hgrows, -⟩ := (within_visited wf hnames hp hd).kept i b hb
  obtain rfl := Option.some.inj (hb'.symm.trans hc)
  obtain ⟨b'', hb'', hgrows', -⟩ := (within_visited wf hnames hpd hq).kept i b' hb'
  obtain ⟨late, hlate, hwithin⟩ := hgrows.written
  obtain ⟨later, hlater, hwithin'⟩ := hgrows'.written
  rw [hsplit] at hb''
  obtain ⟨hbefore, hafter⟩ := apart_of_split wf h
  -- writes before `d` and behind it stand in other declarations
  constructor
  · rintro ⟨a, ha, w, hw, hsite⟩ hsame
    obtain rfl := Option.some.inj (ha.symm.trans hb'')
    rw [hlater, List.mem_append] at hw
    obtain hw | hw := hw
    · rw [hsame] at hw
      obtain ⟨e, he, hmem⟩ := mem_preorderAll.1 (writes_visited wf hnames hp hb w hw).site
      exact hbefore e he _ hmem hsite
    · obtain ⟨e, he, hmem⟩ := mem_preorderAll.1 (hwithin' w hw).site
      exact hafter e he _ hsite hmem
  · intro hne
    rw [hlate] at hne
    obtain ⟨w, hw⟩ := List.exists_mem_of_ne_nil late fun hnil => hne (by rw [hnil, List.append_nil])
    refine ⟨b'', hb'', w, ?_, by simpa using (hwithin w hw).site⟩
    rw [hlater, hlate]
    simp [hw]

/-- The scope of a binding of a function lies in a declaration. -/
theorem scope_mem_bodies (hi : (declared root).facts.bindings.length ≤ i)
    (hb : (Resolution.ofFile root).bindings[i]? = some b) :
    ∃ d ∈ bodies root, b.scope ∈ d.preorder :=
  mem_preorderAll.1 ((within_declared wf hnames (List.Subset.refl _)).added i b hi hb).1

/-- A declaration mentions the bindings that it writes to. -/
theorem mention_of_writtenIn (hd : d ∈ bodies root) (h : (Resolution.ofFile root).WrittenIn d i) :
    ∃ n ∈ d.preorder, (n.id, i) ∈ (Resolution.ofFile root).uses := by
  by_cases hi : i < (declared root).facts.bindings.length
  case neg =>
    -- the name of a binding of a function is declared where the binding is written
    obtain ⟨b, hb, w, hw, hsite⟩ := h
    have hsound := sound_visited wf (List.Sublist.refl (bodies root))
    obtain ⟨e, he, hscope⟩ := scope_mem_bodies wf hnames (Nat.le_of_not_lt hi) hb
    have hin :=
      preorder_trans hscope (preorder_of_inner (hsound.written b (List.mem_of_getElem? hb) w hw).2)
    obtain rfl : d = e := wf.distinct.child_eq (List.mem_of_mem_filter (List.mem_of_mem_filter hd))
      (List.mem_of_mem_filter (List.mem_of_mem_filter he)) hsite hin rfl
    obtain ⟨huse, -, hdecl, -⟩ := hsound.declared i b.view (getElem?_views hb)
    exact ⟨b.decl, preorder_trans hscope (preorder_of_inner hdecl), mem_of_lookup huse⟩
  obtain ⟨p, q, hsplit⟩ := List.append_of_mem hd
  have hpd : p ++ [d] ++ q = bodies root := by rw [hsplit, List.append_assoc]; rfl
  have hsub : p ++ [d] ⊆ bodies root := hpd ▸ List.subset_append_left ..
  obtain ⟨hp, hd⟩ := List.append_subset.1 hsub
  have hq : q ⊆ bodies root := hpd ▸ List.subset_append_right ..
  obtain ⟨b, hb, -, -⟩ := (within_declared wf hnames hp).kept i _ (List.getElem?_eq_getElem hi)
  have hwithin := within_visited wf hnames hp hd
  obtain ⟨b', hb', -, hmention⟩ := hwithin.kept i b hb
  obtain ⟨n, hn, hmem⟩ := hmention ((writtenIn_iff wf hnames hsplit.symm hb hb').1 h)
  refine ⟨n, by simpa using hn, ?_⟩
  rw [ofFile_eq_visited, ← hpd]
  exact (within_visited wf hnames hsub hq).uses hmem

/-- A binding of a function has its contents once the declaration around it was visited. -/
theorem contents_of_added (h : p ++ d :: q = bodies root)
    (hi : (visited root p).facts.bindings.length ≤ i)
    (hb : (visited root (p ++ [d])).facts.bindings[i]? = some b) :
    ∃ b', (Resolution.ofFile root).bindings[i]? = some b' ∧ b'.view = b.view ∧
      b'.writes = b.writes ∧ b'.type = b.type := by
  have hsplit : p ++ [d] ++ q = bodies root := by rw [← h, List.append_assoc]; rfl
  have hpd : p ++ [d] ⊆ bodies root := hsplit ▸ List.subset_append_left ..
  obtain ⟨hp, hd⟩ := List.append_subset.1 hpd
  have hscope := ((within_visited wf hnames hp hd).added i b hi hb).1
  rw [preorderAll_cons, preorderAll_nil, List.append_nil] at hscope
  have hsound := sound_visited wf (List.Sublist.refl (bodies root))
  have hrest : p ++ [d] ++ q ++ [] = bodies root := by rw [List.append_nil, hsplit]
  obtain ⟨b', hb', hview, hwrites, htype⟩ := contents_visited wf hnames hrest hb fun e he => by
    rintro ⟨c, hc, w, hw, hsite⟩
    have hq : q ⊆ bodies root := hsplit ▸ List.subset_append_right ..
    obtain ⟨c', hc', hgrows, -⟩ := (within_visited wf hnames hpd hq).kept i b hb
    rw [hsplit] at hc'
    obtain rfl := Option.some.inj (hc.symm.trans hc')
    have hin := (hsound.written c (List.mem_of_getElem? hc) w hw).2
    rw [show c.scope = b.scope from congrArg Binding.View.scope hgrows.view] at hin
    exact (apart_of_split wf h).2 e he _ (preorder_trans hscope (preorder_of_inner hin)) hsite
  rw [hsplit] at hb'
  exact ⟨b', hb', hview, hwrites, htype⟩

omit wf hnames in
/-- Every binding of a function is added by the visit of one declaration. -/
theorem exists_visit (hi : (declared root).facts.bindings.length ≤ i)
    (hlt : i < (Resolution.ofFile root).bindings.length) :
    ∃ p d q, p ++ d :: q = bodies root ∧ (visited root p).facts.bindings.length ≤ i ∧
      i < (visited root (p ++ [d])).facts.bindings.length := by
  have hall : ∀ ds rest, ds ++ rest = bodies root → i < (visited root ds).facts.bindings.length →
      ∃ p d q, p ++ d :: q = bodies root ∧ (visited root p).facts.bindings.length ≤ i ∧
        i < (visited root (p ++ [d])).facts.bindings.length := by
    intro ds
    induction ds using List.reverseRecOn with
    | nil => exact fun rest _ hlt => absurd hlt (Nat.not_lt_of_le hi)
    | append_singleton ds d ih =>
      intro rest hsplit hlt
      by_cases hbefore : i < (visited root ds).facts.bindings.length
      · exact ih (d :: rest) (by rw [← hsplit, List.append_assoc]; rfl) hbefore
      · exact ⟨ds, d, rest, by rw [← hsplit, List.append_assoc]; rfl, Nat.le_of_not_lt hbefore, hlt⟩
  exact hall (bodies root) [] (List.append_nil _) hlt

end

end Resolver

end Handoff

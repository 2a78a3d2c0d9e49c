import Handoff.Proofs.Resolution.Footprint
import Mathlib.Data.List.Flatten
import Mathlib.Data.List.Perm.Basic
import Mathlib.Data.List.Nodup

/-!
# What the package declares

The first round of a resolution goes over the declarations in source order and only collects:
bindings, result types and the fields of structs. When no two declarations introduce the same name,
the order does not matter to what a name stands for.

## Main definitions

* `Resolver.declared`: the resolver after the first round.
* `Resolver.packageBindings`, `Resolver.packageResults`, `Resolver.packageFields`: what a
  declaration adds.
* `Resolver.declaredNames`: the names that a declaration introduces.

## Main statements

* `Resolver.bindings_declared`, `Resolver.results_declared`, `Resolver.fieldTypes_declared`: the
  first round collects what the declarations add.
* `Resolver.number_eq_of_name`: a name has one binding.
-/

namespace Handoff

open Syntax Node

/-! ### Lists of which one part matters -/

section Lists

variable {α β κ : Type}

/-- When at most one element of a list yields something, the order of the list does not matter. -/
theorem flatMap_eq_of_perm {l l' : List α} {f : α → List β} (hperm : l.Perm l')
    (hf : l.Pairwise fun a b => f a = [] ∨ f b = []) : l.flatMap f = l'.flatMap f := by
  induction hperm with
  | nil => rfl
  | cons a _ ih => rw [List.flatMap_cons, List.flatMap_cons, ih (List.pairwise_cons.1 hf).2]
  | swap a b l =>
    have hab := (List.pairwise_cons.1 hf).1 a (List.mem_cons_self ..)
    simp only [List.flatMap_cons]
    obtain h | h := hab
    · rw [h, List.nil_append, List.nil_append]
    · rw [h, List.nil_append, List.nil_append]
  | trans hperm _ ih ih' =>
    rw [ih hf, ih' (hf.perm hperm fun h => h.symm)]

theorem lookup_filter [BEq κ] [LawfulBEq κ] {k : κ} {p : κ × β → Bool}
    (hp : ∀ e : κ × β, e.1 = k → p e = true) (l : List (κ × β)) : (l.filter p).lookup k =
      l.lookup k := by
  induction l with
  | nil => rfl
  | cons e l ih =>
    rw [List.filter_cons]
    by_cases hk : e.1 = k
    · rw [if_pos (hp e hk), List.lookup_cons, List.lookup_cons, ih]
    · have hne : (k == e.1) = false := beq_eq_false_iff_ne.2 fun h => hk h.symm
      rw [List.lookup_cons, hne]
      split
      · rw [List.lookup_cons, hne]
        exact ih
      · exact ih

/-- Looking a key up in what the elements of a list yield, when only one of them yields entries like
it. -/
theorem lookup_reverse_flatMap_perm [BEq κ] [LawfulBEq κ] {l l' : List α} {f : α → List (κ × β)}
    {k : κ} {p : κ × β → Bool} (hp : ∀ e : κ × β, e.1 = k → p e = true) (hperm : l.Perm l')
    (hf : l.Pairwise fun a b => (f a).filter p = [] ∨ (f b).filter p = []) :
    (l.flatMap f).reverse.lookup k = (l'.flatMap f).reverse.lookup k := by
  rw [← lookup_filter hp, ← lookup_filter hp (l'.flatMap f).reverse, List.filter_reverse,
    List.filter_reverse, List.filter_flatMap, List.filter_flatMap, flatMap_eq_of_perm hperm hf]

/-- Entries with equal names that count have equal positions. -/
theorem getElem?_inj_of_nodup_filter {l : List α} {p : α → Bool} (h : (l.filter p).Nodup)
    {i j : Nat} {a : α} (ha : p a = true) (hi : l[i]? = some a) (hj : l[j]? = some a) : i = j := by
  rw [List.Nodup, List.pairwise_filter] at h
  have hlt : ∀ {i j : Nat}, l[i]? = some a → l[j]? = some a → ¬ i < j := by
    intro i j hi hj hij
    obtain ⟨hilt, hia⟩ := List.getElem?_eq_some_iff.1 hi
    obtain ⟨hjlt, hja⟩ := List.getElem?_eq_some_iff.1 hj
    exact List.pairwise_iff_getElem.1 h i j hilt hjlt hij (hia ▸ ha) (hja ▸ ha) (hia.trans hja.symm)
  have hij := hlt hi hj
  have hji := hlt hj hi
  omega

end Lists

namespace Resolver

variable {root d : Node} {s : Resolver} {i j : Nat}

/-- The resolver after the first round. -/
def declared (root : Node) : Resolver :=
  root.parts.foldl declarePackage (.start root)

def packageBindings (root : Node) (imports : Imports) (d : Node) : List Binding :=
  match d.kind with
  | .functionDeclaration =>
    (d.child? .name).toList.map fun name => ⟨name.text, .function d, name, none, root, none, []⟩
  | .varDeclaration | .constDeclaration =>
    (d.parts.filter isValueSpec).flatMap fun spec =>
      ((spec.inField .name).filter (·.text ≠ "_")).map fun name =>
        ⟨name.text, .packageVariable, name, none, root, imports.declaredType spec, []⟩
  | _ => []

def packageResults (imports : Imports) (d : Node) : List (String × List (Option TypeName)) :=
  if d.kind = .functionDeclaration then
    match d.child? .name, d.child? .result with
    | some name, some result => [(name.text, declaredResults imports result)]
    | _, _ => []
  else []

def packageFields (imports : Imports) (d : Node) : List ((String × String) × TypeName) :=
  if d.kind = .typeDeclaration then
    (d.parts.filter (·.kind == .typeSpec)).flatMap (structFields imports)
  else []

/-- The names that a declaration introduces in the package. Blank functions, variables and constants
introduce none. -/
def declaredNames (d : Node) : List String :=
  match d.kind with
  | .functionDeclaration => ((d.child? .name).toList.map Node.text).filter (· ≠ "_")
  | .varDeclaration | .constDeclaration =>
    (((d.parts.filter isValueSpec).flatMap fun spec => spec.inField .name).map Node.text).filter
      (· ≠ "_")
  | .typeDeclaration => d.parts.filterMap fun spec => (spec.child? .name).map Node.text
  | _ => []

/-! ### The first round -/

structure Collects (ds : List Node) (s t : Resolver) : Prop where
  scope_eq : t.scope = s.scope
  imports_eq : t.facts.imports = s.facts.imports
  bindings : t.facts.bindings = s.facts.bindings ++
    ds.flatMap (packageBindings s.scope s.facts.imports)
  results :
    t.facts.results = (ds.flatMap (packageResults s.facts.imports)).reverse ++ s.facts.results
  fieldTypes : t.facts.fieldTypes = (ds.flatMap (packageFields s.facts.imports)).reverse ++
    s.facts.fieldTypes

theorem Collects.trans {ds ds' : List Node} {s t u : Resolver} (h : Collects ds s t)
    (h' : Collects ds' t u) : Collects (ds ++ ds') s u where
  scope_eq := h'.scope_eq.trans h.scope_eq
  imports_eq := h'.imports_eq.trans h.imports_eq
  bindings := by
    rw [h'.bindings, h.bindings, h.scope_eq, h.imports_eq, List.flatMap_append, List.append_assoc]
  results := by
    rw [h'.results, h.results, h.imports_eq, List.flatMap_append, List.reverse_append,
      List.append_assoc]
  fieldTypes := by
    rw [h'.fieldTypes, h.fieldTypes, h.imports_eq, List.flatMap_append, List.reverse_append,
      List.append_assoc]

theorem scope_declare (owner : Option Node) (n : Node) (kind : BindingKind) (type : Option TypeName)
    (s : Resolver) : (s.declare owner n kind type).scope = s.scope :=
  scope_congr (scopes_declare ..) rfl

theorem collects_declareFunction (hkind : d.kind = .functionDeclaration) :
    Collects [d] s (s.declareFunction d) := by
  have hfields : packageFields s.facts.imports d = [] := by rw [packageFields, hkind]; rfl
  unfold declareFunction
  cases hname : d.child? .name with
  | none =>
    refine ⟨rfl, rfl, ?_, ?_, ?_⟩
    · simp [packageBindings, hkind, hname]
    · simp [packageResults, hkind, hname]
    · simp [hfields]
  | some name =>
    have hscope := scope_declare none name (.function d) none s
    cases hresult : d.child? .result with
    | none =>
      refine ⟨hscope, rfl, ?_, ?_, ?_⟩
      · simp [packageBindings, hkind, hname, declare, use]
      · simp [packageResults, hkind, hname, hresult, declare, use]
      · simp [hfields, declare, use]
    | some result =>
      refine ⟨hscope, rfl, ?_, ?_, ?_⟩
      · simp [packageBindings, hkind, hname, declare, use]
      · simp [packageResults, hkind, hname, hresult, declare, use]
      · simp [hfields, declare, use]

/-- The bindings that a list of names adds, blanks left out. -/
theorem bindings_declareAll (owner : Option Node) (kind : BindingKind) (type : Option TypeName)
    (names : List Node) (s : Resolver) :
    (s.declareAll owner kind type names).facts.bindings = s.facts.bindings ++
      (names.filter (·.text ≠ "_")).map fun name =>
        ⟨name.text, kind, name, owner, s.scope, type, []⟩ := by
  unfold declareAll
  induction names generalizing s with
  | nil => simp
  | cons name names ih =>
    rw [List.foldl_cons, ih]
    by_cases hname : name.text = "_"
    · simp [hname]
    · simp only [if_neg hname, scope_declare]
      simp [hname, declare, use]

theorem declareAll_other (owner : Option Node) (kind : BindingKind) (type : Option TypeName)
    (names : List Node) (s : Resolver) :
    (s.declareAll owner kind type names).scope = s.scope ∧
      (s.declareAll owner kind type names).facts.imports = s.facts.imports ∧
      (s.declareAll owner kind type names).facts.results = s.facts.results ∧
      (s.declareAll owner kind type names).facts.fieldTypes = s.facts.fieldTypes := by
  unfold declareAll
  induction names generalizing s with
  | nil => exact ⟨rfl, rfl, rfl, rfl⟩
  | cons name names ih =>
    rw [List.foldl_cons]
    obtain ⟨hscope, himports, hresults, hfields⟩ :=
      ih (if name.text = "_" then s else s.declare owner name kind type)
    rw [hscope, himports, hresults, hfields]
    split
    · exact ⟨rfl, rfl, rfl, rfl⟩
    · exact ⟨scope_declare .., rfl, rfl, rfl⟩

/-- The names of several declarations of one kind. -/
theorem foldl_declareAll (owner : Option Node) (kind : BindingKind) (ds : List Node)
    (s : Resolver) :
    let t := ds.foldl (fun s d =>
      s.declareAll owner kind (s.facts.imports.declaredType d) (d.inField .name)) s
    t.scope = s.scope ∧ t.facts.imports = s.facts.imports ∧ t.facts.results = s.facts.results ∧
      t.facts.fieldTypes = s.facts.fieldTypes ∧
      t.facts.bindings = s.facts.bindings ++ ds.flatMap fun d =>
        ((d.inField .name).filter (·.text ≠ "_")).map fun name =>
          ⟨name.text, kind, name, owner, s.scope, s.facts.imports.declaredType d, []⟩ := by
  induction ds generalizing s with
  | nil => exact ⟨rfl, rfl, rfl, rfl, (List.append_nil _).symm⟩
  | cons d ds ih =>
    obtain ⟨hscope, himports, hresults, hfields, hbindings⟩ := ih (s.declareAll owner kind
      (s.facts.imports.declaredType d) (d.inField .name))
    obtain ⟨hscope', himports', hresults', hfields'⟩ := declareAll_other owner kind
      (s.facts.imports.declaredType d) (d.inField .name) s
    refine ⟨hscope.trans hscope', himports.trans himports', hresults.trans hresults',
      hfields.trans hfields', ?_⟩
    rw [List.foldl_cons, hbindings, hscope', himports', bindings_declareAll, List.flatMap_cons,
      List.append_assoc]

theorem collects_declareValues (hkind : d.kind = .varDeclaration ∨ d.kind = .constDeclaration) :
    Collects [d] s (s.declareValues d) := by
  have hresults : packageResults s.facts.imports d = [] := by
    rcases hkind with hk | hk <;> simp [packageResults, hk]
  have hfields : packageFields s.facts.imports d = [] := by
    rcases hkind with hk | hk <;> simp [packageFields, hk]
  have hbindings : packageBindings s.scope s.facts.imports d =
      (d.parts.filter isValueSpec).flatMap fun spec =>
        ((spec.inField .name).filter (·.text ≠ "_")).map fun name =>
          ⟨name.text, .packageVariable, name, none, s.scope,
            s.facts.imports.declaredType spec, []⟩ := by
    rcases hkind with hk | hk <;> simp only [packageBindings, hk]
  obtain ⟨hscope, himports, hresults', hfields', hbindings'⟩ :=
    foldl_declareAll none .packageVariable (d.parts.filter isValueSpec) s
  refine ⟨hscope, himports, hbindings'.trans ?_, hresults'.trans ?_, hfields'.trans ?_⟩
  · rw [List.flatMap_singleton, hbindings]
  · simp [hresults]
  · simp [hfields]

/-- A declaration of the package adds what the definitions list for it, and nothing else. -/
theorem collects_declarePackage (d : Node) (s : Resolver) :
    Collects [d] s (s.declarePackage d) := by
  unfold declarePackage
  split
  next hk => exact collects_declareFunction hk
  next hk => exact collects_declareValues (.inl hk)
  next hk => exact collects_declareValues (.inr hk)
  next hk =>
    refine ⟨rfl, rfl, ?_, ?_, ?_⟩
    · simp [packageBindings, hk, declareTypes]
    · simp [packageResults, hk, declareTypes]
    · simp [packageFields, hk, declareTypes]
  next hfunction hvar hconst htype =>
    refine ⟨rfl, rfl, ?_, ?_, ?_⟩
    · simp [packageBindings]
    · rw [List.flatMap_singleton, packageResults, if_neg hfunction]
      rfl
    · rw [List.flatMap_singleton, packageFields, if_neg htype]
      rfl

theorem collects_declared (root : Node) : Collects root.parts (start root) (declared root) := by
  have hall : ∀ (ds : List Node) (s : Resolver), Collects ds s (ds.foldl declarePackage s) := by
    intro ds
    induction ds with
    | nil => exact fun s => ⟨rfl, rfl, by simp, by simp, by simp⟩
    | cons d ds ih => exact fun s => (collects_declarePackage d s).trans (ih _)
  exact hall root.parts (start root)

theorem bindings_declared (root : Node) : (declared root).facts.bindings =
    root.parts.flatMap (packageBindings root (.ofFile root)) :=
  (collects_declared root).bindings

theorem results_declared (root : Node) : (declared root).facts.results =
    (root.parts.flatMap (packageResults (.ofFile root))).reverse :=
  (collects_declared root).results.trans (List.append_nil _)

theorem fieldTypes_declared (root : Node) : (declared root).facts.fieldTypes =
    (root.parts.flatMap (packageFields (.ofFile root))).reverse :=
  (collects_declared root).fieldTypes.trans (List.append_nil _)

/-! ### Names -/

section Names

variable {imports : Imports} {b c : Binding} {ds : List Node}

/-- A binding of the package is that of a function, or of a variable or constant that is not
blank. -/
theorem packageBindings_cases (hb : b ∈ packageBindings root imports d) :
    (d.kind = .functionDeclaration ∧ ∃ name, d.child? .name = some name ∧
      b = ⟨name.text, .function d, name, none, root, none, []⟩) ∨
    ((d.kind = .varDeclaration ∨ d.kind = .constDeclaration) ∧
      ∃ spec ∈ d.parts, isValueSpec spec = true ∧ ∃ name ∈ spec.inField .name, name.text ≠ "_" ∧
        b = ⟨name.text, .packageVariable, name, none, root, imports.declaredType spec, []⟩) := by
  have hvalues : b ∈ (d.parts.filter isValueSpec).flatMap (fun spec =>
      ((spec.inField .name).filter (·.text ≠ "_")).map fun name =>
        ⟨name.text, .packageVariable, name, none, root, imports.declaredType spec, []⟩) →
      ∃ spec ∈ d.parts, isValueSpec spec = true ∧ ∃ name ∈ spec.inField .name, name.text ≠ "_" ∧
        b = ⟨name.text, .packageVariable, name, none, root, imports.declaredType spec, []⟩ := by
    intro hb
    obtain ⟨spec, hspec, hb⟩ := List.mem_flatMap.1 hb
    obtain ⟨hspec, hvalue⟩ := List.mem_filter.1 hspec
    obtain ⟨name, hname, rfl⟩ := List.mem_map.1 hb
    obtain ⟨hname, hblank⟩ := List.mem_filter.1 hname
    exact ⟨spec, hspec, hvalue, name, hname, by simpa using hblank, rfl⟩
  unfold packageBindings at hb
  split at hb
  next hk =>
    obtain ⟨name, hname, rfl⟩ := List.mem_map.1 hb
    exact .inl ⟨hk, name, Option.mem_toList.1 hname, rfl⟩
  next hk => exact .inr ⟨.inl hk, hvalues hb⟩
  next hk => exact .inr ⟨.inr hk, hvalues hb⟩
  next => cases hb

/-- All bindings of a declaration have names that it introduces. -/
theorem names_packageBindings_sublist (root : Node) (imports : Imports) (d : Node) :
    (((packageBindings root imports d).map Binding.name).filter (· ≠ "_")).Sublist
      (declaredNames d) := by
  have hvalues : (((d.parts.filter isValueSpec).flatMap fun spec =>
      ((spec.inField .name).filter (·.text ≠ "_")).map fun name =>
        (⟨name.text, .packageVariable, name, none, root, imports.declaredType spec, []⟩ :
          Binding)).map Binding.name).filter (· ≠ "_") =
      (((d.parts.filter isValueSpec).flatMap fun spec => spec.inField .name).map Node.text).filter
        (· ≠ "_") := by
    generalize d.parts.filter isValueSpec = specs
    induction specs with
    | nil => rfl
    | cons spec specs ih =>
      simp only [List.flatMap_cons, List.map_append, List.filter_append, ih]
      congr 1
      rw [List.map_map, List.filter_map, List.filter_map, List.filter_filter]
      simp [Function.comp_def]
  unfold packageBindings
  split
  next hk =>
    rw [declaredNames, hk, List.map_map]
    exact List.Sublist.refl _
  next hk => rw [hvalues, declaredNames, hk]
  next hk => rw [hvalues, declaredNames, hk]
  next => exact List.nil_sublist _

/-- A name has one binding. -/
theorem number_eq_of_name (hnames : (root.parts.flatMap declaredNames).Nodup)
    (hi : (declared root).facts.bindings[i]? = some b)
    (hj : (declared root).facts.bindings[j]? = some c) (hname : b.name = c.name)
    (hblank : b.name ≠ "_") : i = j := by
  have hsublist : (((declared root).facts.bindings.map Binding.name).filter (· ≠ "_")).Sublist
      (root.parts.flatMap declaredNames) := by
    rw [bindings_declared, List.map_flatMap, List.filter_flatMap]
    exact List.Sublist.flatMap_right _ fun d _ => names_packageBindings_sublist root _ d
  refine getElem?_inj_of_nodup_filter (hsublist.nodup hnames) (a := b.name)
    (by simpa using hblank) ?_ ?_
  · rw [List.getElem?_map, hi, Option.map_some]
  · rw [List.getElem?_map, hj, Option.map_some, hname]

/-- Only one declaration adds something under a name. -/
theorem pairwise_filter_of_nodup {β : Type} {f : Node → List β} {p : β → Bool} (name : String)
    (hnames : (ds.flatMap declaredNames).Nodup)
    (hf : ∀ d ∈ ds, ∀ e ∈ f d, p e = true → name ∈ declaredNames d) :
    ds.Pairwise fun a b => (f a).filter p = [] ∨ (f b).filter p = [] := by
  have hdisjoint := (List.nodup_flatMap.1 hnames).2
  refine hdisjoint.imp_of_mem fun {a b} ha hb hab => ?_
  by_contra hboth
  rw [not_or] at hboth
  obtain ⟨e, he⟩ := List.exists_mem_of_ne_nil _ hboth.1
  obtain ⟨e', he'⟩ := List.exists_mem_of_ne_nil _ hboth.2
  exact hab (hf a ha e (List.mem_filter.1 he).1 (List.mem_filter.1 he).2)
    (hf b hb e' (List.mem_filter.1 he').1 (List.mem_filter.1 he').2)

theorem name_mem_of_result {e : String × List (Option TypeName)} (he : e ∈ packageResults imports d)
    (hblank : e.1 ≠ "_") : e.1 ∈ declaredNames d := by
  unfold packageResults at he
  split at he
  next hk =>
    split at he
    next name result hname hresult =>
      obtain rfl := List.mem_singleton.1 he
      rw [declaredNames, hk]
      simpa [hname] using hblank
    next => cases he
  next => cases he

theorem name_mem_of_field {e : (String × String) × TypeName} (he : e ∈ packageFields imports d) :
    e.1.1 ∈ declaredNames d := by
  unfold packageFields at he
  split at he
  next hk =>
    obtain ⟨spec, hspec, he⟩ := List.mem_flatMap.1 he
    have hname : ∃ name, spec.child? .name = some name ∧ e.1.1 = name.text := by
      unfold structFields at he
      split at he
      next name type hname htype =>
        refine ⟨name, hname, ?_⟩
        split at he
        · cases he
        · split at he
          · cases he
          · obtain ⟨field, -, he⟩ := List.mem_flatMap.1 he
            split at he
            · cases he
            · obtain ⟨fieldName, -, rfl⟩ := List.mem_map.1 he
              rfl
      next => cases he
    obtain ⟨name, hname, heq⟩ := hname
    rw [declaredNames, hk, List.mem_filterMap]
    exact ⟨spec, (List.mem_filter.1 hspec).1, by rw [hname, heq]; rfl⟩
  next => cases he

end Names

end Resolver

end Handoff

import Handoff.Proofs.Verdict.Tiers

/-!
# Writes that reach a site

The search for a closure behind a variable follows the writes that reach the site: those before it,
from the last one on that replaces all earlier ones. A write stands after another when it starts
later or, where both start at the same byte, when it was recorded later. So a write reaches the site
when no replacing write that is before the site stands after it, and a variable to which only
function literals are written is judged by the literals that reach the site.

## Main definitions

* `Syntax.Node.IsBefore`: a node that starts before a site and does not contain it.
* `Binding.Reaches`: a write of a variable that reaches a site.

## Main statement

* `Search.closure_of_onlyLiterals`: the verdict on a variable to which only function literals are
  written.
-/

namespace Handoff

open Syntax Node

variable {r : Resolution} {carriers : Carriers} {b : Binding} {expr site : Node} {i : Nat}

def Syntax.Node.IsBefore (n site : Node) : Prop :=
  n.start < site.start ∧ n.encloses site = false

/-- The write that is recorded at a position reaches a site: it is before the site, and every write
before the site that stands after it is conditional. -/
structure Binding.Reaches (b : Binding) (site : Node) (j : Nat) (w : Write) : Prop where
  recorded : b.writes[j]? = some w
  before : w.site.IsBefore site
  last : ∀ k v, b.writes[k]? = some v → v.site.IsBefore site →
    (w.site.start < v.site.start ∨ w.site.start = v.site.start ∧ j < k) → v.conditional = true

/-- A variable, local or of the package, to which only function literals are written. -/
structure Binding.OnlyLiterals (b : Binding) : Prop where
  isVariable : b.kind = .packageVariable ∨ ∃ bySpec, b.kind = .localVariable bySpec
  literal : ∀ w ∈ b.writes, ∃ value, w.value = some value ∧ value.bare.kind = .funcLiteral

namespace Search

/-! ### The last write that replaces -/

theorem fromLast_concat {α : Type} (p : α → Bool) (xs : List α) (x : α) :
    fromLast p (xs ++ [x]) = if p x then [x] else fromLast p xs ++ [x] := by
  simp [fromLast]

/-- In a list in strict order, the members that nothing with the property comes after. -/
theorem mem_fromLast {α : Type} {p : α → Bool} {lt : α → α → Prop} {xs : List α} {y : α}
    (asymm : ∀ a b, lt a b → ¬ lt b a) (h : xs.Pairwise lt) :
    y ∈ fromLast p xs ↔ y ∈ xs ∧ ∀ z ∈ xs, lt y z → p z = false := by
  induction xs using List.reverseRecOn with
  | nil => simp [fromLast]
  | append_singleton xs x ih =>
    obtain ⟨hxs, -, hlast⟩ := List.pairwise_append.1 h
    have hlast : ∀ a ∈ xs, lt a x := fun a ha => hlast a ha x (List.mem_singleton_self x)
    have hself : ¬ lt x x := fun hx => asymm x x hx hx
    rw [fromLast_concat]
    -- the last entry is kept; it hides all others if it passes the test
    split
    next hp =>
      constructor
      · intro hy
        obtain rfl := List.mem_singleton.1 hy
        refine ⟨List.mem_append_right _ hy, fun z hz hlt => ?_⟩
        obtain hz | hz := List.mem_append.1 hz
        · exact absurd hlt (asymm _ _ (hlast z hz))
        · exact absurd (List.mem_singleton.1 hz ▸ hlt) hself
      · rintro ⟨hy, hafter⟩
        obtain hy | hy := List.mem_append.1 hy
        · simp [hafter x (by simp) (hlast y hy)] at hp
        · exact hy
    next hp =>
      simp only [List.mem_append, List.mem_singleton, ih hxs]
      constructor
      · rintro (⟨hy, hafter⟩ | rfl)
        · refine ⟨.inl hy, fun z hz hlt => ?_⟩
          obtain hz | rfl := hz
          · exact hafter z hz hlt
          · simpa using hp
        · refine ⟨.inr rfl, fun z hz hlt => ?_⟩
          obtain hz | rfl := hz
          · exact absurd hlt (asymm _ _ (hlast z hz))
          · exact absurd hlt hself
      · rintro ⟨hy | rfl, hafter⟩
        · exact .inl ⟨hy, fun z hz => hafter z (.inl hz)⟩
        · exact .inr rfl

/-- Sorting by a key that a function reads off is sorting what the function gives. -/
theorem map_sorted {α β : Type} (f : α → β) (le : β → β → Bool) (xs : List α) :
    (sorted (fun a b => le (f a) (f b)) xs).map f = sorted le (xs.map f) := by
  have hinsert : ∀ x ys, (insertSorted (fun a b => le (f a) (f b)) x ys).map f =
      insertSorted le (f x) (ys.map f) := by
    intro x ys
    induction ys with
    | nil => rfl
    | cons y ys ih =>
      simp only [insertSorted, List.map_cons]
      split <;> simp [ih]
  induction xs with
  | nil => rfl
  | cons x xs ih => rw [sorted_cons, hinsert, ih, List.map_cons, sorted_cons]

theorem map_fromLast {α β : Type} (f : α → β) (p : β → Bool) (xs : List α) :
    (fromLast (fun a => p (f a)) xs).map f = fromLast p (xs.map f) := by
  induction xs using List.reverseRecOn with
  | nil => rfl
  | append_singleton xs x ih =>
    rw [fromLast_concat, List.map_append, List.map_singleton, fromLast_concat]
    split <;> simp [ih]

/-- One entry of a list of supplies stands after another: it starts later, or at the same byte and
is recorded later. -/
def IsAfter (a b : Supply × Nat) : Prop :=
  a.1.site.start < b.1.site.start ∨ a.1.site.start = b.1.site.start ∧ a.2 < b.2

/-- What reaches a site: no replacing write before the site stands after it. -/
theorem mem_reaching {supplies : List Supply} {s : Supply} :
    s ∈ reaching supplies site ↔ ∃ j, supplies[j]? = some s ∧ s.site.IsBefore site ∧
      ∀ k t, supplies[k]? = some t → t.site.IsBefore site → IsAfter (s, j) (t, k) →
        t.replaces = false := by
  -- The entries carry the positions at which they were recorded, which sorting keeps in order.
  let before : Supply → Bool := fun s => s.site.start < site.start && !s.site.encloses site
  let le : Supply → Supply → Bool := fun a b => a.site.start ≤ b.site.start
  let entries := sorted (fun a b => le a.1 b.1) (supplies.zipIdx.filter fun a => before a.1)
  have hentries : entries.map Prod.fst = sorted le (supplies.filter before) := by
    rw [map_sorted, show supplies.filter before =
      _ by rw [← List.zipIdx_map_fst 0 supplies, List.filter_map]]
    rfl
  have hreaching : reaching supplies site =
      (fromLast (fun a => a.1.replaces) entries).map Prod.fst := by
    rw [map_fromLast, hentries]
    rfl
  have hmem : ∀ t k, (t, k) ∈ entries ↔ supplies[k]? = some t ∧ t.site.IsBefore site := by
    intro t k
    simp [entries, before, Node.IsBefore, List.mem_zipIdx_iff_getElem?]
  have horder : entries.Pairwise IsAfter := by
    have hrecorded : (supplies.zipIdx.filter fun a => before a.1).Pairwise fun a b => a.2 < b.2 :=
      List.Pairwise.filter _
        (List.pairwise_map.1 (by simp [List.zipIdx_map_snd, List.pairwise_lt_range']))
    refine (sorted_stable ?_ ?_ hrecorded).imp fun {a b} ⟨hle, hrec⟩ => ?_
    · intro a b
      simp only [le, decide_eq_true_eq]
      omega
    · intro a b c
      simp only [le, decide_eq_true_eq]
      omega
    · simp only [le, decide_eq_true_eq] at hle hrec
      unfold IsAfter
      omega
  have hasymm : ∀ a b, IsAfter a b → ¬ IsAfter b a := by
    unfold IsAfter
    omega
  simp only [hreaching, List.mem_map, mem_fromLast hasymm horder, Prod.exists, hmem, Prod.forall]
  grind

/-- Of the writes of a variable, read as supplies, those reach that no replacing one stands
after. -/
theorem mem_reaching_map {supply : Write → Supply} {s : Supply}
    (hsite : ∀ w, (supply w).site = w.site) :
    s ∈ reaching (b.writes.map supply) site ↔ ∃ (j : Nat) (w : Write), b.writes[j]? = some w ∧
      w.site.IsBefore site ∧
        (∀ (k : Nat) (v : Write), b.writes[k]? = some v → v.site.IsBefore site →
          (w.site.start < v.site.start ∨ w.site.start = v.site.start ∧ j < k) →
            (supply v).replaces = false) ∧
      s = supply w := by
  rw [mem_reaching]
  simp only [List.getElem?_map, Option.map_eq_some_iff, IsAfter]
  constructor
  · rintro ⟨j, ⟨w, hw, rfl⟩, hbefore, hlast⟩
    rw [hsite] at hbefore
    refine ⟨j, w, hw, hbefore, fun k v hv hvbefore hafter => ?_, rfl⟩
    exact hlast k _ ⟨v, hv, rfl⟩ (by rwa [hsite]) (by rwa [hsite, hsite])
  · rintro ⟨j, w, hw, hbefore, hlast, rfl⟩
    refine ⟨j, ⟨w, hw, rfl⟩, by rwa [hsite], ?_⟩
    rintro k _ ⟨v, hv, rfl⟩ hvbefore hafter
    rw [hsite] at hvbefore
    rw [hsite, hsite] at hafter
    exact hlast k v hv hvbefore hafter

theorem mem_reaching_writesOf {s : Supply} :
    s ∈ reaching (writesOf i b) site ↔ ∃ j w, b.Reaches site j w ∧ s = Supply.ofWrite w := by
  have hreplaces : ∀ w : Write, (Supply.ofWrite w).replaces = !w.conditional := by
    simp [Supply.ofWrite, Supply.replaces]
  rw [writesOf, mem_reaching_map fun _ => rfl]
  simp only [hreplaces, Bool.not_eq_false']
  constructor
  · rintro ⟨j, w, hw, hbefore, hlast, hs⟩
    exact ⟨j, w, ⟨hw, hbefore, hlast⟩, hs⟩
  · rintro ⟨j, w, hreaches, hs⟩
    exact ⟨j, w, hreaches.recorded, hreaches.before, hreaches.last, hs⟩

end Search

/-! ### Combined answers -/

namespace Verdict

theorem all_eq_all (answers : List Bool) : Verdict.all answers = answers.all id := by
  have hfold : ∀ b : Bool, answers.foldl Verdict.both b = (b && answers.all id) := by
    induction answers with
    | nil => simp
    | cons a answers ih =>
      intro b
      rw [List.foldl_cons, ih, List.all_cons, ← Bool.and_assoc]
      rfl
  exact hfold true

/-- The combined outcome is the greatest that no outcome is worse than. -/
theorem le_all_iff {o : Outcome} {answers : List Outcome} :
    o ≤ Verdict.all answers ↔ ∀ a ∈ answers, o ≤ a := by
  have hboth : ∀ o a b : Outcome, o ≤ Verdict.both a b ↔ o ≤ a ∧ o ≤ b := by
    intro o a b
    cases o <;> cases a <;> cases b <;> decide
  have hfold : ∀ a : Outcome, o ≤ answers.foldl Verdict.both a ↔ o ≤ a ∧ ∀ b ∈ answers, o ≤ b := by
    induction answers with
    | nil => simp
    | cons b answers ih => simp [ih, hboth, and_assoc]
  have hassumed : o ≤ Verdict.assumed := by cases o <;> decide
  simp [Verdict.all, hfold, hassumed]

/-- Some outcome is the combined one. -/
theorem all_le {o : Outcome} {answers : List Outcome} (h : o ∈ answers) :
    Verdict.all answers ≤ o := by
  have hle : Verdict.all answers ≤ Verdict.all answers := by
    cases Verdict.all answers <;> decide
  exact le_all_iff.1 hle o h

theorem all_mem {answers : List Outcome} (h : answers ≠ []) : Verdict.all answers ∈ answers := by
  have hsome : Verdict.all answers = .atStart ∨ Verdict.all answers ∈ answers := by
    refine List.foldlRecOn (motive := fun o => o = .atStart ∨ o ∈ answers) answers _ (.inl rfl) ?_
    intro a ha b hb
    obtain heq | heq := Search.selective_outcome.both a b <;> rw [heq]
    · exact ha
    · exact .inr hb
  obtain hstart | hmem := hsome
  · obtain ⟨a, ha⟩ := List.exists_mem_of_ne_nil answers h
    have hself : Outcome.atStart ≤ Outcome.atStart := by decide
    have hle : Outcome.atStart ≤ a := le_all_iff.1 (hstart.symm ▸ hself) a ha
    have heq : a = .atStart := by cases a <;> simp_all +decide
    rwa [hstart, ← heq]
  · exact hmem

end Verdict

namespace Search

/-- A function literal that a write reaching a site gives to a variable. -/
def MayHold (b : Binding) (site f : Node) : Prop :=
  ∃ j w value, b.Reaches site j w ∧ w.value = some value ∧ value.bare = f

/-- What a search through a variable combines: the answers on the values that reach the site. -/
theorem throughBinding_of_isVariable {V : Type} [Verdict V] {ident : Node} {visited : List Nat}
    {supplies : Nat → Binding → List Supply} {follow : Node → Node → List Nat → V}
    (hb : r.bindingOf ident = some (i, b))
    (h : b.kind = .packageVariable ∨ ∃ bySpec, b.kind = .localVariable bySpec)
    (hvisited : b.decl.id ∉ visited) :
    throughBinding r ident site visited supplies follow =
      Verdict.all ((reaching (supplies i b) site).map fun s =>
        s.value.elim Verdict.assumed fun value => follow value s.site (b.decl.id :: visited)) := by
  obtain hkind | ⟨bySpec, hkind⟩ := h
  all_goals
    simp only [throughBinding, hb, hkind]
    rw [if_neg (by simpa using hvisited)]
    refine congrArg Verdict.all (List.map_congr_left fun s _ => ?_)
    cases s.value <;> rfl

section OnlyLiterals

variable (h : b.OnlyLiterals) (hkind : expr.bare.kind = .identifier)
  (hb : r.bindingOf expr.bare = some (i, b))
include h hkind hb

/-- The answers on the literals that reach the site are combined. -/
theorem closure_eq_all {V : Type} [Verdict V] (test : ClosureTest V) (site : Node) :
    ∃ answers : List V, closure r test expr site = Verdict.all answers ∧
      ∀ a, a ∈ answers ↔ ∃ f, MayHold b site f ∧ test.function f = a := by
  let answer : Supply → V := fun s => s.value.elim Verdict.assumed fun value =>
    test.function value.bare
  refine ⟨(reaching (writesOf i b) site).map answer, ?_, fun a => ?_⟩
  · have hfollow : ∀ s ∈ reaching (writesOf i b) site,
        (s.value.elim Verdict.assumed fun value =>
          search r test 16 .closure value s.site [b.decl.id]) =
          answer s := by
      intro s hs
      obtain ⟨j, w, hreaches, rfl⟩ := mem_reaching_writesOf.1 hs
      obtain ⟨value, hvalue, hliteral⟩ := h.literal w (List.mem_of_getElem? hreaches.recorded)
      simp only [Supply.ofWrite, hvalue, answer, Option.elim_some]
      exact search_closure_literal hliteral
    have hnone : b.kind.declaration? = none := by
      obtain hpackage | ⟨bySpec, hlocal⟩ := h.isVariable
      · simp [hpackage, BindingKind.declaration?]
      · simp [hlocal, BindingKind.declaration?]
    calc closure r test expr site
        = identifier r test (search r test 16) expr.bare site [] := search_identifier hkind
      _ = throughBinding r expr.bare site [] writesOf (search r test 16 .closure) := by
        simp [identifier, hb, hnone]
      _ = Verdict.all ((reaching (writesOf i b) site).map answer) := by
        rw [throughBinding_of_isVariable hb h.isVariable (by simp), List.map_congr_left hfollow]
  · simp only [List.mem_map, mem_reaching_writesOf]
    constructor
    · rintro ⟨_, ⟨j, w, hreaches, rfl⟩, rfl⟩
      obtain ⟨value, hvalue, -⟩ := h.literal w (List.mem_of_getElem? hreaches.recorded)
      exact ⟨value.bare,
        ⟨j, w, value, hreaches, hvalue, rfl⟩, by simp [answer, Supply.ofWrite, hvalue]⟩
    · rintro ⟨_, ⟨j, w, value, hreaches, hvalue, rfl⟩, rfl⟩
      exact ⟨_, ⟨j, w, hreaches, rfl⟩, by simp [answer, Supply.ofWrite, hvalue]⟩

/-- A variable passes where no write reaches. -/
theorem closure_of_unreached {V : Type} [Verdict V] (test : ClosureTest V)
    (hnone : ∀ j w, ¬ b.Reaches site j w) : closure r test expr site = Verdict.assumed := by
  obtain ⟨answers, hanswers, hmem⟩ := closure_eq_all h hkind hb test site
  have hnil : answers = [] := List.eq_nil_iff_forall_not_mem.2 fun a ha => by
    obtain ⟨f, ⟨j, w, value, hreaches, -⟩, -⟩ := (hmem a).1 ha
    exact hnone j w hreaches
  rw [hanswers, hnil]
  rfl

theorem closure_le (test : ClosureTest Outcome) {f : Node} (hf : MayHold b site f) :
    closure r test expr site ≤ test.function f := by
  obtain ⟨answers, hanswers, hmem⟩ := closure_eq_all h hkind hb test site
  rw [hanswers]
  exact Verdict.all_le ((hmem _).2 ⟨f, hf, rfl⟩)

/-- The outcome of a variable is that of some literal in it. -/
theorem exists_function_eq_closure (test : ClosureTest Outcome) (hsome : ∃ f, MayHold b site f) :
    ∃ f, MayHold b site f ∧ test.function f = closure r test expr site := by
  obtain ⟨answers, hanswers, hmem⟩ := closure_eq_all h hkind hb test site
  obtain ⟨f, hf⟩ := hsome
  have hne : answers ≠ [] := List.ne_nil_of_mem ((hmem _).2 ⟨f, hf, rfl⟩)
  rw [hanswers]
  exact (hmem _).1 (Verdict.all_mem hne)

end OnlyLiterals

/-- A function literal that may be in a variable has a body. -/
theorem MayHold.exists_body {f : Node} (hr : r.Grounded) (h : b.OnlyLiterals)
    (hb : r.bindingOf expr.bare = some (i, b)) (hf : MayHold b site f) :
    ∃ body, f.child? .body = some body := by
  obtain ⟨j, w, value, hreaches, hvalue, rfl⟩ := hf
  have hw := List.mem_of_getElem? hreaches.recorded
  obtain ⟨_, hsome, hliteral⟩ := h.literal w hw
  obtain rfl := Option.some.inj (hsome.symm.trans hvalue)
  have hmem := (candidate_of_write hr hb hw hvalue hliteral).1
  exact (hr.wellFormed.of_mem hmem).exists_body hliteral

/-- A variable to which only function literals are written is judged by those that reach the site.
It uses a context when each of them declares one or mentions one in its body, and its outcome is the
worst of theirs; when none reaches the site, it passes. -/
theorem closure_of_onlyLiterals {root : Node} (hfile : root.IsFile)
    (hkind : expr.bare.kind = .identifier)
    (hb : (Resolution.ofFile root).bindingOf expr.bare = some (i, b))
    (h : b.OnlyLiterals) (site : Node) :
    let r := Resolution.ofFile root
    (∀ carriers, closure r (captureTest r carriers) expr site = true ↔
      ∀ f, MayHold b site f → declaresToken r.imports carriers f = true ∨
        ∃ body, f.child? .body = some body ∧ mentionsToken r carriers false body = true) ∧
    (∀ requirement,
      (∀ f, MayHold b site f → ∃ body, f.child? .body = some body ∧
        closure r (outcomeTest r requirement) expr site ≤
          requirement.outcome r (CallSite.ofBody body)) ∧
      ((∃ f, MayHold b site f) → ∃ f body, MayHold b site f ∧ f.child? .body = some body ∧
        closure r (outcomeTest r requirement) expr site =
          requirement.outcome r (CallSite.ofBody body))) ∧
    ((∀ j w, ¬ b.Reaches site j w) →
      (∀ carriers, closure r (captureTest r carriers) expr site = true) ∧
      ∀ requirement, closure r (outcomeTest r requirement) expr site = .atStart) := by
  intro r
  have hr : r.Grounded := Resolution.grounded_of_isFile hfile
  have hbody : ∀ f, MayHold b site f → ∃ body, f.child? .body = some body :=
    fun f hf => hf.exists_body hr h hb
  have houtcome : ∀ requirement f body, f.child? .body = some body →
      (outcomeTest r requirement).function f = requirement.outcome r (CallSite.ofBody body) := by
    intro requirement f body hbody
    simp [outcomeTest, hbody]
  refine ⟨fun carriers => ?_, fun requirement => ?_, fun hnone => ?_⟩
  · obtain ⟨answers, hanswers, hmem⟩ := closure_eq_all h hkind hb (captureTest r carriers) site
    rw [hanswers, Verdict.all_eq_all, List.all_eq_true]
    simp only [hmem, id_eq, forall_exists_index, and_imp, forall_apply_eq_imp_iff₂]
    refine forall₂_congr fun f hf => ?_
    obtain ⟨body, hbody⟩ := hbody f hf
    simp [captureTest, hbody]
  · constructor
    · intro f hf
      obtain ⟨body, hbody⟩ := hbody f hf
      refine ⟨body, hbody, ?_⟩
      rw [← houtcome requirement f body hbody]
      exact closure_le h hkind hb (outcomeTest r requirement) hf
    · intro hsome
      obtain ⟨f, hf, hworst⟩ :=
        exists_function_eq_closure h hkind hb (outcomeTest r requirement) hsome
      obtain ⟨body, hbody⟩ := hbody f hf
      exact ⟨f, body, hf, hbody, by rw [← hworst, houtcome requirement f body hbody]⟩
  · exact ⟨fun carriers => closure_of_unreached h hkind hb _ hnone,
      fun requirement => closure_of_unreached h hkind hb _ hnone⟩

def resetClosure : String :=
  "package p\nimport \"context\"\nfunc run(ctx context.Context, c bool) \x7b\n" ++
    "\tf := func() \x7b\x7d\n\tf = func() \x7b use(ctx) \x7d\n\tif c \x7b\n" ++
    "\t\tf = func() \x7b defer use(ctx) \x7d\n\t\x7d\n\tgo f()\n\x7d\n"

set_option maxRecDepth 4000 in
theorem closure_of_onlyLiterals_resetClosure :
    let r := Resolution.ofFile (parse resetClosure)
    let use : Requirement := ⟨[[.bare "use"]], "use"⟩
    ∃ expr site i b, expr.bare.kind = .identifier ∧ r.bindingOf expr.bare = some (i, b) ∧
      b.OnlyLiterals ∧ b.writes.length = 3 ∧
      closure r (captureTest r []) expr site = true ∧
      (∀ f, MayHold b site f → declaresToken r.imports [] f = true ∨
        ∃ body, f.child? .body = some body ∧ mentionsToken r [] false body = true) ∧
      closure r (outcomeTest r use) expr site = .deferred ∧
      ∀ f, MayHold b site f → ∃ body, f.child? .body = some body ∧
        Outcome.deferred ≤ use.outcome r (CallSite.ofBody body) := by
  intro r use
  have hrun :
      r.root.preorder.any (fun site => site.kind == .goStatement && site.preorder.any fun expr =>
        expr.bare.kind == .identifier &&
          ((r.bindingOf expr.bare).any fun e => e.2.kind.isLocal && e.2.writes.length == 3 &&
        e.2.writes.all fun w => w.value.any fun value => value.bare.kind == .funcLiteral) &&
      closure r (captureTest r []) expr site && closure r
        (outcomeTest r use) expr site == .deferred) =
        true := by
    decide +kernel
  simp only [List.any_eq_true, Bool.and_eq_true, beq_iff_eq, Option.any_eq_true,
    List.all_eq_true] at hrun
  obtain ⟨site, -, -, expr, -, ⟨⟨hkind, ⟨i, b⟩, hb, ⟨hlocal, hlength⟩, hliteral⟩, hcaptures⟩,
    houtcome⟩ := hrun
  have h : b.OnlyLiterals := by
    refine ⟨.inr ?_, hliteral⟩
    cases hb : b.kind <;> simp_all [BindingKind.isLocal]
  obtain ⟨hcapture, hworst, -⟩ :=
    closure_of_onlyLiterals (isFile_parse resetClosure) hkind hb h site
  exact ⟨expr, site, i, b, hkind, hb, h, hlength, hcaptures, (hcapture []).1 hcaptures, houtcome,
    houtcome ▸ (hworst use).1⟩

end Search

end Handoff

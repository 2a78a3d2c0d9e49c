import Handoff.Proofs.Inspection.Repeats
import Handoff.Proofs.Resolution.Comments

/-!
# Comments are transparent

A comment that is neither an ignore directive nor a mark tells nothing. Without any of these
comments, a file has the same bindings, functions and spawn sites, all of them are judged alike, and
the report on the file is the same.

## Main definitions

* `CaptureGraph.without`, `SpawnSite.without`, `TokenScope.without`: what is known of a file, in the
  file without some of its comments.
* `Inspection.Unchanged`: all that is known of a file stays as it is.

## Main statement

* `Inspection.unchanged_without_comments`: nothing changes without comments that are no directives.
-/

namespace Handoff

open Syntax Node

variable {gone : Node → Bool} {root n : Node}

section Lists

variable {α β : Type} {f : α → β}

theorem map_eq_of_forall₂ {l : List α} {l' : List β} (h : List.Forall₂ (fun a b => f a = b) l l') :
    l.map f = l' := by
  induction h with
  | nil => rfl
  | cons hab _ ih => rw [List.map_cons, hab, ih]

theorem map_eq_of_rel_option {a : Option α} {b : Option β}
    (h : Option.Rel (fun a b => f a = b) a b) : a.map f = b := by
  cases h with
  | none => rfl
  | some hab => rw [Option.map_some, hab]

end Lists

/-! ### What is known of a file -/

def CallSite.without (gone : Node → Bool) (site : CallSite) : CallSite :=
  { site with call := site.call.without gone }

def FunctionUnit.without (gone : Node → Bool) (u : FunctionUnit) : FunctionUnit :=
  { u with function := u.function.without gone, calls := u.calls.map (CallSite.without gone) }

def CaptureGraph.without (gone : Node → Bool) (g : CaptureGraph) : CaptureGraph :=
  ⟨g.units.map (FunctionUnit.without gone)⟩

theorem Finding.eq_of_alike {f f' : Finding}
    (h : Finding.Alike (LeftOf gone root) f f') : f = f' := by
  obtain ⟨checker, span, message⟩ := f
  obtain ⟨checker', span', message'⟩ := f'
  obtain ⟨hchecker, hmessage, n, n', hn, hspan, hspan'⟩ := h
  have hsame : span' = span := by
    rw [show span' = n'.span from hspan', ← hn.eq, span_without]
    exact hspan.symm
  obtain rfl : checker' = checker := hchecker
  obtain rfl : message' = message := hmessage
  rw [hsame]

theorem CallSite.without_eq {a b : CallSite} (h : CallSite.Alike (LeftOf gone root) a b) :
    a.without gone = b := by
  obtain ⟨call, deferred⟩ := a
  obtain ⟨call', deferred'⟩ := b
  have hdeferred : deferred' = deferred := h.deferred
  rw [CallSite.without, h.call.eq, hdeferred]

def Callback.without (gone : Node → Bool) (c : Callback) : Callback :=
  { c with expr := c.expr.without gone }

def SpawnSite.without (gone : Node → Bool) (s : SpawnSite) : SpawnSite :=
  { s with callbacks := s.callbacks.map (Callback.without gone) }

def TokenScope.without (gone : Node → Bool) (s : TokenScope) : TokenScope :=
  { s with owner := s.owner.without gone }

theorem Callback.without_eq {c c' : Callback} (h : Callback.Alike (LeftOf gone root) c c') :
    c.without gone = c' := by
  obtain ⟨expr, ordinal, spread⟩ := c
  obtain ⟨expr', ordinal', spread'⟩ := c'
  have hordinal : ordinal' = ordinal := h.ordinal
  have hspread : spread' = spread := h.spread
  rw [Callback.without, h.expr.eq, hordinal, hspread]

theorem SpawnSite.without_eq {s s' : SpawnSite} (h : SpawnSite.Alike (LeftOf gone root) s s') :
    s.without gone = s' := by
  obtain ⟨spawner, callbacks⟩ := s
  obtain ⟨spawner', callbacks'⟩ := s'
  have hspawner : spawner' = spawner := h.spawner
  rw [SpawnSite.without, map_eq_of_forall₂
    (h.callbacks.imp fun _ _ => Callback.without_eq), hspawner]

theorem TokenScope.without_eq {s s' : TokenScope} (h : TokenScope.Alike (LeftOf gone root) s s') :
    s.without gone = s' := by
  obtain ⟨owner, names⟩ := s
  obtain ⟨owner', names'⟩ := s'
  have hnames : names' = names := h.names
  rw [TokenScope.without, h.owner.eq, hnames]

/-! ### Directives and marks -/

/-- The ledger of a file does not depend on comments that say nothing. -/
theorem Ledger.ofTree_without
    (hsilent : ∀ n ∈ root.preorder, gone n = true → Remark.ofComment n.text = none) :
    ofTree (root.without gone) = ofTree root := by
  have hmarks : ((((root.without gone).preorder.filter (·.kind == .comment)).filter fun n =>
        Remark.ofComment n.text == some .spawnerMark).map line) =
      ((root.preorder.filter (·.kind == .comment)).filter fun n =>
        Remark.ofComment n.text == some .spawnerMark).map line := by
    rw [← List.filterMap_eq_map]
    simp only [List.filterMap_filter]
    refine filterMap_preorder_without (fun m => by simp) fun m hm hgm => by simp [hsilent m hm hgm]
  have hdirectives :
      ((root.without gone).preorder.filter (·.kind == .comment)).filterMap Directive.ofComment =
        (root.preorder.filter (·.kind == .comment)).filterMap Directive.ofComment := by
    rw [List.filterMap_filter, List.filterMap_filter]
    refine filterMap_preorder_without (fun m => by simp [Directive.ofComment]) fun m hm hgm => ?_
    simp [Directive.ofComment, hsilent m hm hgm]
  unfold ofTree
  dsimp only
  rw [hmarks, hdirectives]

/-! ### The graph -/

namespace FunctionUnit

theorem collectAll_append (r : Resolution) (parent : Option Nat) (next : Nat) (cs ds : List Node) :
    collectAll r parent next (cs ++ ds) =
      collectAll r parent next cs ++ collectAll r parent
        (next + (collectAll r parent next cs).length) ds := by
  induction cs generalizing next with
  | nil => simp [collectAll]
  | cons c cs ih => simp [collectAll, ih, Nat.add_assoc]

theorem collectAll_singleton (r : Resolution) (parent : Option Nat) (next : Nat) (c : Node) :
    collectAll r parent next [c] = collect r parent next c := by
  simp [collectAll]

end FunctionUnit

variable (wf : root.WellFormed) (hgone : OnlyComments gone root)

include wf hgone

/-- The marked functions of a file are the same without some of its comments. -/
theorem Spawner.ofMarks_without (marks : List Nat) :
    Spawner.ofMarks (root.without gone) marks = Spawner.ofMarks root marks := by
  unfold Spawner.ofMarks
  rw [parts_without wf hgone (self_mem_preorder root)]
  simp only [List.filter_map, List.filterMap_map, Function.comp_def, kind_without, line_without]
  refine List.filterMap_congr fun d hd => ?_
  obtain ⟨hchild, -⟩ := mem_parts.1 (List.mem_of_mem_filter hd)
  have hfunction : d.kind = .functionDeclaration := by
    simpa using (Bool.and_eq_true_iff.1 (List.mem_filter.1 hd).2).1
  exact Spawner.ofDeclaration_replica (replica_without wf hgone)
    (leftOf_of_child (self_mem_preorder root) hchild (by simp [hfunction]))

variable (hkind : root.kind = .sourceFile)

include hkind

namespace FunctionUnit

theorem ownUses_without (hn : LeftOf gone root n (n.without gone)) :
    ownUses (.ofFile (root.without gone)) (n.without gone) = ownUses (.ofFile root) n := by
  have huses :
      List.Forall₂ Eq (ownUses (.ofFile root) n)
        (ownUses (.ofFile (root.without gone)) (n.without gone)) :=
    List.rel_filterMap (fun _ _ hident => (Resolution.mirrors_without wf hgone hkind).uses hident)
      (ownIdentifiersAll_replica (replica_without wf hgone) hn)
  rw [List.forall₂_eq_eq_eq] at huses
  exact huses.symm

theorem ofFunction_without (parent : Option Nat) (next : Nat) (below : List FunctionUnit)
    (hn : LeftOf gone root n (n.without gone)) :
    ofFunction (.ofFile (root.without gone)) parent next (n.without gone)
      (below.map (without gone)) =
        (ofFunction (.ofFile root) parent next n below).without gone := by
  have hnested : ((below.map (without gone)).filter fun u => u.parent == some next).flatMap
      captures = (below.filter fun u => u.parent == some next).flatMap captures := by
    rw [List.filter_map, List.flatMap_map]
    rfl
  have hcaptured : isCaptured (.ofFile (root.without gone)) (n.without gone) =
      isCaptured (.ofFile root) n :=
    funext fun _ => Resolution.isCaptured_without wf hgone hkind
  have hcalls : (((n.child? .body).map CallSite.ofBody).getD []).map (CallSite.without gone) =
      (((n.without gone).child? .body).map CallSite.ofBody).getD [] := by
    have L := replica_without wf hgone
    refine map_eq_of_forall₂ ((rel_getD_nil (L.likeness.child? hn .body) fun _ _ _ hbody =>
      (CallSite.within_replica L hbody false).1).imp fun _ _ => CallSite.without_eq)
  rw [ofFunction, ofFunction, ownUses_without wf hgone hkind hn, hnested, hcaptured, ← hcalls]
  rfl

/-- The functions of a file are the same without some of its comments. -/
theorem collect_without (hn : n ∈ root.preorder) (parent : Option Nat) (next : Nat) :
    collect (.ofFile (root.without gone)) parent next (n.without gone) =
      (collect (.ofFile root) parent next n).map (without gone) := by
  induction n using childrenInduction generalizing parent next with
  | step n ih =>
    -- what is left of a comment has no functions, whether it stands there itself or what is below
    -- it moved up
    have hchild : ∀ c ∈ n.children, ∀ parent next,
        collectAll (.ofFile (root.without gone)) parent next
            (if gone c then withoutAll gone c.children else [c.without gone]) =
          (collect (.ofFile root) parent next c).map (without gone) := by
      intro c hc parent next
      have hmem : c ∈ root.preorder := preorder_trans hn (child_mem_preorder hc)
      rw [← ih c hc hmem]
      by_cases hgc : gone c = true
      · rw [if_pos hgc, collect_of_not_isFunction, children_without]
        rw [kind_without, hgone c hmem hgc]
        decide
      · rw [if_neg hgc, collectAll_singleton]
    have hall : ∀ cs ⊆ n.children, ∀ parent next,
        collectAll (.ofFile (root.without gone)) parent next (withoutAll gone cs) =
          (collectAll (.ofFile root) parent next cs).map (without gone) := by
      intro cs hcs
      induction cs with
      | nil => simp [collectAll]
      | cons c cs ihcs =>
        intro parent next
        obtain ⟨hc, hcs⟩ := List.cons_subset.1 hcs
        rw [withoutAll_cons, collectAll_append, hchild c hc, ihcs hcs, collectAll, List.map_append,
          List.length_map]
    have hchildren := hall n.children (List.Subset.refl _)
    by_cases hfunction : n.kind.isFunction = true
    · have hcomment : n.kind ≠ .comment :=
        fun hcomment => by simp [hcomment, Kind.isFunction] at hfunction
      have hleft : LeftOf gone root n (n.without gone) := ⟨hn, hcomment, rfl⟩
      rw [collect_of_isFunction hfunction, collect_of_isFunction (by rwa [kind_without]),
        children_without, hchildren, ofFunction_without wf hgone hkind parent next _
          hleft, List.map_cons]
    · rw [collect_of_not_isFunction hfunction, collect_of_not_isFunction (by rwa [kind_without]),
        children_without, hchildren]

end FunctionUnit

/-- The graph of a file is the same without some of its comments. -/
theorem CaptureGraph.build_without :
    build (.ofFile (root.without gone)) = (build (.ofFile root)).map
      (CaptureGraph.without gone) := by
  unfold build
  rw [Resolution.root_ofFile wf, Resolution.root_ofFile (wf.without hgone), hasErrors_without hgone,
    FunctionUnit.collect_without wf hgone hkind (self_mem_preorder root)]
  split <;> rfl

/-! ### Scopes and sites -/

/-- The token scopes of a file are the same without some of its comments. -/
theorem TokenScope.all_without (carriers : Carriers) :
    all (root.without gone) (Resolution.ofFile (root.without gone)).imports carriers =
      (all root (Resolution.ofFile root).imports carriers).map (TokenScope.without gone) := by
  have hmirrors := Resolution.mirrors_without wf hgone hkind
  have hfunctions : ∀ (root : Node) (imports : Imports), all root imports carriers =
      (root.preorder.filter (·.kind.isFunction)).filterMap (ofNode imports carriers) :=
        fun root imports => by
    rw [List.filterMap_filter]
    refine List.filterMap_congr fun n _ => ?_
    split
    · rfl
    next hfunction => exact if_neg hfunction
  rw [hfunctions, hfunctions, hmirrors.imports]
  refine (map_eq_of_forall₂
    (List.rel_filterMap (R := LeftOf gone root) (fun n n' hn => ?_) ?_)).symm
  · exact rel_mono (ofNode_like (replica_without wf hgone).likeness _ carriers hn) fun _ _ hs =>
      without_eq ⟨hs.1, hs.2⟩
  · exact leftOf_filter_preorder hgone (fun _ => by simp) fun _ hcomment => by
      simp [hcomment, Kind.isFunction]

/-! ### Reports -/

namespace Inspection

/-- The inspection of a file without some of its comments repeats that of the file. -/
theorem repeats_without (settings : Settings) (marks : List Nat) :
    (ofTree settings root marks).Repeats (Correspondence.without wf hgone) (fun _ _ => True)
      (ofTree settings (root.without gone) marks) where
  resolution := Resolution.repeats_without wf hgone hkind
  settings := rfl
  spawners := by
    intro call call' callee callee' _ _ hcallee _
    simp only [ofTree, Spawner.ofMarks_without wf hgone]
    exact (Resolution.mirrors_without wf hgone hkind).find?_isCallee
      ((replica_without wf hgone).likeness.bare hcallee) _
  graph := by
    unfold ofTree
    dsimp only
    split
    · exact .inr ⟨rfl, rfl⟩
    · exact .inl ⟨rfl, rfl⟩

theorem findings_without (settings : Settings) (marks : List Nat) :
    (ofTree settings (root.without gone) marks).findings =
      (ofTree settings root marks).findings := by
  have hrepeats := repeats_without wf hgone hkind settings marks
  have hall : List.Forall₂ (Finding.Alike (LeftOf gone root)) (ofTree settings root marks).findings
      (ofTree settings (root.without gone) marks).findings := by
    rw [findings_eq, findings_eq, hrepeats.resolution.root_eq, hrepeats.resolution.root_eq']
    exact List.rel_flatMap
        (leftOf_filter_preorder hgone (fun _ => by simp [isSite]) fun _ hcomment => by
      simp [isSite, hcomment]) fun n n' hn => hrepeats.siteFindings hn
  have hsame := hall.imp fun _ _ => Finding.eq_of_alike
  rw [List.forall₂_eq_eq_eq] at hsame
  exact hsame.symm

/-- The report on a file does not depend on comments that say nothing. -/
theorem report_without (settings : Settings)
    (hsilent : ∀ n ∈ root.preorder, gone n = true → Remark.ofComment n.text = none) :
    (ofTree settings (root.without gone) (Ledger.ofTree (root.without gone)).marks).report
        (Ledger.ofTree (root.without gone)) =
      (ofTree settings root (Ledger.ofTree root).marks).report (Ledger.ofTree root) := by
  rw [Ledger.ofTree_without hsilent, report, report, findings_without wf hgone hkind]
  rfl

omit wf hgone hkind

/-- All that is known of a file stays as it is without some of its nodes: names and their types,
token scopes, functions with what they capture and call, spawn sites, and the verdicts of graph and
search. -/
structure Unchanged (gone : Node → Bool) (root : Node) : Prop where
  imports : (Resolution.ofFile (root.without gone)).imports = (Resolution.ofFile root).imports
  bindings : (Resolution.ofFile (root.without gone)).bindings =
    (Resolution.ofFile root).bindings.map (Binding.without gone)
  useOf : ∀ n ∈ root.preorder, gone n = false →
    (Resolution.ofFile (root.without gone)).useOf (n.without gone) =
      (Resolution.ofFile root).useOf n
  typeOf : ∀ n ∈ root.preorder, n.kind ≠ .comment →
    (Resolution.ofFile (root.without gone)).typeOf (n.without gone) =
      (Resolution.ofFile root).typeOf n
  scopes (carriers : Carriers) :
    TokenScope.all (root.without gone) (Resolution.ofFile (root.without gone)).imports carriers =
      (TokenScope.all root (Resolution.ofFile root).imports carriers).map (TokenScope.without gone)
  around (carriers : Carriers) : ∀ n ∈ root.preorder, n.kind ≠ .comment →
    TokenScope.around (root.without gone) (Resolution.ofFile (root.without gone)).imports carriers
      (n.without gone) = (TokenScope.around root (Resolution.ofFile root).imports carriers n).map
        (TokenScope.without gone)
  graph : CaptureGraph.build (.ofFile (root.without gone)) =
    (CaptureGraph.build (.ofFile root)).map (CaptureGraph.without gone)
  sites (spawners : List Spawner) : ∀ n ∈ root.preorder, n.kind ≠ .comment →
    SpawnSite.ofCall spawners (.ofFile (root.without gone)) (n.without gone) =
      (SpawnSite.ofCall spawners (.ofFile root) n).map (SpawnSite.without gone)
  traceCapture (carriers : Carriers) : ∀ expr ∈ root.preorder, expr.kind ≠ .comment →
    Handoff.traceCapture (CaptureGraph.build (.ofFile (root.without gone)))
        (.ofFile (root.without gone)) carriers (expr.without gone) =
      Handoff.traceCapture (CaptureGraph.build (.ofFile root)) (.ofFile root) carriers expr
  traceOutcome (requirement : Requirement) : ∀ expr ∈ root.preorder, expr.kind ≠ .comment →
    Handoff.traceOutcome (CaptureGraph.build (.ofFile (root.without gone)))
        (.ofFile (root.without gone)) requirement (expr.without gone) =
      Handoff.traceOutcome (CaptureGraph.build (.ofFile root)) (.ofFile root) requirement expr
  captureSearch (carriers : Carriers) (goal : Search.Goal) : ∀ expr ∈ root.preorder, expr.kind ≠
    .comment → ∀ site ∈ root.preorder, site.kind ≠ .comment →
      Search.search (.ofFile (root.without gone))
          (captureTest (.ofFile (root.without gone)) carriers) Search.maxDepth goal
          (expr.without gone) (site.without gone) [] =
        Search.search (.ofFile root) (captureTest (.ofFile root) carriers) Search.maxDepth
          goal expr site []
  outcomeSearch (requirement : Requirement) (goal : Search.Goal) :
    ∀ expr ∈ root.preorder, expr.kind ≠ .comment → ∀ site ∈ root.preorder, site.kind ≠ .comment →
      Search.search (.ofFile (root.without gone))
          (outcomeTest (.ofFile (root.without gone)) requirement) Search.maxDepth goal
          (expr.without gone) (site.without gone) [] =
        Search.search (.ofFile root) (outcomeTest (.ofFile root) requirement) Search.maxDepth
          goal expr site []

include wf hgone hkind

/-- Without some comments, everything that an inspection looks at is what it was. -/
theorem unchanged_without : Unchanged gone root := by
  have h := Resolution.repeats_without wf hgone hkind
  have hroot := Resolution.root_ofFile wf
  have hroot' := Resolution.root_ofFile (wf.without hgone)
  refine
    { imports := h.imports
      bindings := Resolution.bindings_without wf hgone hkind
      useOf := fun n hn hkept => Resolution.useOf_without wf hgone hkind hn hkept
      typeOf := fun n hn hcomment => h.typeOf (n := n) ⟨hn, hcomment, rfl⟩
      scopes := TokenScope.all_without wf hgone hkind
      around := fun carriers n hn hcomment => ?_
      graph := CaptureGraph.build_without wf hgone hkind
      sites := fun spawners n hn hcomment => ?_
      traceCapture := fun carriers expr hexpr hcomment => h.traceCapture carriers (n := expr)
        ⟨hexpr, hcomment, rfl⟩
      traceOutcome := fun requirement expr hexpr hcomment =>
        h.traceOutcome requirement (n := expr) ⟨hexpr, hcomment, rfl⟩
      captureSearch := fun carriers goal expr hexpr hcomment site hsite hcomment' =>
        h.search (h.captureTest_agrees carriers) _ goal ⟨hexpr, hcomment, rfl⟩
          ⟨hsite, hcomment', rfl⟩ trivial .nil
      outcomeSearch := fun requirement goal expr hexpr hcomment site hsite hcomment' =>
        h.search (h.outcomeTest_agrees requirement) _ goal ⟨hexpr, hcomment, rfl⟩
          ⟨hsite, hcomment', rfl⟩ trivial .nil }
  · have haround := h.around carriers (n := n) ⟨hn, hcomment, rfl⟩
    rw [hroot, hroot'] at haround
    exact (map_eq_of_rel_option (rel_mono haround fun _ _ => TokenScope.without_eq)).symm
  · exact (map_eq_of_rel_option (rel_mono (h.ofCall (n := n) ⟨hn, hcomment, rfl⟩ fun hcallee _ =>
      h.find?_isCallee (h.replica.likeness.bare hcallee) spawners) fun _ _ =>
      SpawnSite.without_eq)).symm

omit wf hgone hkind

/-- Comments are transparent: without any of its comments that are neither directives nor marks, all
that is known of a file stays as it is, and so does the report on it. -/
theorem unchanged_without_comments (hfile : root.IsFile) (gone : Node → Bool)
    (h : ∀ n ∈ root.preorder, gone n = true → n.kind = .comment ∧ Remark.ofComment n.text = none) :
    Unchanged gone root ∧ ∀ settings, checkFile settings
      (root.without gone) = checkFile settings root := by
  have wf := hfile.wellFormed
  have hgone : OnlyComments gone root := fun n hn hgn => (h n hn hgn).1
  refine ⟨unchanged_without wf hgone hfile.kind, fun settings => ?_⟩
  exact report_without wf hgone hfile.kind settings fun n hn hgn => (h n hn hgn).2

def commentedSpawns : String :=
  "package p // all of it\nimport \"context\"\n//ctxflow:spawner\n" ++
    "func each(f func()) \x7b /* later */ \x7d\nfunc run(ctx context.Context) \x7b\n" ++
    "\tgo /* lost */ func(/* nothing */) \x7b \x7d()\n\teach(func() \x7b \x7d) //ignore\n\n" ++
    "\teach(/* first */ func() \x7b \x7d)\n\x7d\n"

def isSilent (n : Node) : Bool :=
  n.kind == .comment && (Remark.ofComment n.text).isNone

set_option maxRecDepth 4000 in
theorem unchanged_without_comments_commentedSpawns :
    (∀ n ∈ (parse commentedSpawns).preorder, isSilent n = true →
        n.kind = .comment ∧ Remark.ofComment n.text = none) ∧
      ((parse commentedSpawns).preorder.filter isSilent).length = 5 ∧
      Unchanged isSilent (parse commentedSpawns) ∧
      (check .standard commentedSpawns).map Finding.line = [6, 9] ∧
      checkFile .standard ((parse commentedSpawns).without isSilent) =
        check .standard commentedSpawns := by
  have hsilent : ∀ n ∈ (parse commentedSpawns).preorder, isSilent n = true →
      n.kind = .comment ∧ Remark.ofComment n.text = none := fun n _ h => by simpa [isSilent] using h
  obtain ⟨hunchanged, hreport⟩ := unchanged_without_comments (isFile_parse _) isSilent hsilent
  have hrun : ((parse commentedSpawns).preorder.filter isSilent).length = 5 ∧
      (check .standard commentedSpawns).map Finding.line = [6, 9] := by
    decide +kernel
  exact ⟨hsilent, hrun.1, hunchanged, hrun.2, hreport .standard⟩

end Inspection

end Handoff

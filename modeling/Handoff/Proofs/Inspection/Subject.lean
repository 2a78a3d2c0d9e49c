import Handoff.Proofs.Inspection.Site
import Handoff.Proofs.Ledger.Suppression
import Handoff.Proofs.Syntax.Walk

/-!
# What findings are about

A propagation finding is about a `go` statement or about a callback, its subject, and shows the span
of it. Subjects may be nested in one another, but no two of them cover the same text: between a
subject and one inside it stands a bracket or a keyword. So a span tells which closure a finding is
about.

## Main definitions

* `Syntax.Node.IsSubject`: a `go` statement, or an argument of a call.
* `Inspection.Spawns`: a subject in a token scope, with the expression of its closure.
* `Inspection.Condemns`: the verdict on a closure that a propagation finding comes from.
-/

namespace Handoff

open Syntax Node

namespace Syntax.Node

variable {root s t n call list : Node}

/-- An argument of a call, or the collection that an argument spreads. -/
def IsArgument (root n : Node) : Prop :=
  ∃ list ∈ root.preorder, list.kind = .argumentList ∧
    (n ∈ list.parts ∨ ∃ spread ∈ list.parts, spread.kind = .variadicArgument ∧ n ∈ spread.parts)

def IsSubject (root n : Node) : Prop :=
  n ∈ root.preorder ∧ (n.kind = .goStatement ∨ IsArgument root n)

/-- Each argument is a part of an argument list. -/
theorem exists_argumentList (wf : root.WellFormed) (hcall : call ∈ root.preorder)
    (h : n ∈ call.arguments) : ∃ list ∈ root.preorder, list.kind = .argumentList ∧
      n ∈ list.parts := by
  unfold arguments at h
  cases hlist : call.child? .arguments with
  | none => simp [hlist] at h
  | some list =>
    exact ⟨list, preorder_trans hcall (preorder_of_child? hlist), wf.kind_arguments hcall hlist,
      by simpa [hlist] using h⟩

namespace IsArgument

theorem mem_preorder (h : IsArgument root n) : n ∈ root.preorder := by
  obtain ⟨list, hlist, -, h | ⟨spread, hspread, -, h⟩⟩ := h
  · exact preorder_trans hlist (preorder_of_inner (inner_of_mem_filter h))
  · exact preorder_trans hlist
      (preorder_of_inner (inner_trans (inner_of_mem_filter hspread) (inner_of_mem_filter h)))

theorem isPart (h : IsArgument root n) : n.isPart = true := by
  obtain ⟨list, -, -, h | ⟨spread, -, -, h⟩⟩ := h
  · exact (List.mem_filter.1 h).2
  · exact (List.mem_filter.1 h).2

theorem isPlain (h : IsArgument root n) (wf : root.WellFormed) : n.kind.isPlain = true := by
  obtain ⟨list, hlist, hkind, h | ⟨spread, hspread, hspreadKind, h⟩⟩ := h
  · exact wf.plain list hlist (by rw [hkind]; rfl) n (List.mem_of_mem_filter h)
  · have hmem := preorder_trans hlist (preorder_of_inner (inner_of_mem_filter hspread))
    exact wf.plain spread hmem (by rw [hspreadKind]; rfl) n (List.mem_of_mem_filter h)

end IsArgument

namespace IsSubject

theorem isPart (h : IsSubject root n) : n.isPart = true := by
  obtain ⟨-, hkind | h⟩ := h
  · simp [Node.isPart, hkind, Kind.isNamed]
  · exact h.isPart

/-- Between a subject and a subject inside it, something starts with a keyword or a bracket. -/
theorem exists_opened (wf : root.WellFormed) (hs : IsSubject root s) (ht : IsSubject root t)
    (hspread : s.kind ≠ .variadicArgument) (hin : t ∈ s.inner) :
    ∃ n ∈ s.preorder, n.kind.isOpened = true ∧ t ∈ n.inner := by
  obtain ⟨-, hgo | ⟨list, hlist, hkind, h | ⟨spread, hmem, hspreadKind, h⟩⟩⟩ := ht
  · -- A statement inside an expression belongs to a function.
    obtain ⟨hmem, hsgo | hsarg⟩ := hs
    · exact ⟨s, self_mem_preorder s, by rw [hsgo]; rfl, hin⟩
    · obtain ⟨f, hf, hfunction, hin⟩ := (wf.of_mem hmem).exists_function (hsarg.isPlain wf)
        (preorder_of_inner hin) (by rw [hgo]; rfl)
      exact ⟨f, hf, Kind.isOpened_of_isFunction hfunction, hin⟩
  · exact ⟨list, wf.distinct.preorder_of_child hlist (List.mem_of_mem_filter h) hs.1 hin,
      by rw [hkind]; rfl, inner_of_mem_filter h⟩
  · have hlistSpread := inner_of_mem_filter hmem
    have hspreadMem := wf.distinct.preorder_of_child
      (preorder_trans hlist (preorder_of_inner hlistSpread)) (List.mem_of_mem_filter h) hs.1 hin
    obtain rfl | hspreadIn := Node.mem_preorder.1 hspreadMem
    · exact absurd hspreadKind hspread
    · exact ⟨list, wf.distinct.preorder_of_child hlist (List.mem_of_mem_filter hmem) hs.1 hspreadIn,
        by rw [hkind]; rfl, inner_trans hlistSpread (inner_of_mem_filter h)⟩

theorem start_lt (wf : root.WellFormed) (hs : IsSubject root s) (ht : IsSubject root t)
    (hspread : s.kind ≠ .variadicArgument) (hin : t ∈ s.inner) : s.start < t.start := by
  obtain ⟨n, hn, hopened, hin⟩ := exists_opened wf hs ht hspread hin
  calc
    s.start ≤ n.start := ((wf.of_mem hs.1).start_le (self_mem_preorder s) hn).1
    _ < t.start := (wf.of_mem (preorder_trans hs.1 hn)).start_lt_of_isOpened hopened hin ht.isPart

/-- Subjects over the same text are the same. -/
theorem eq_of_span (wf : root.WellFormed) (hs : IsSubject root s) (ht : IsSubject root t)
    (hsspread : s.kind ≠ .variadicArgument) (htspread : t.kind ≠ .variadicArgument)
    (hspan : s.span = t.span) (hnonempty : s.start < s.stop) : s = t := by
  have hstart : s.start = t.start := congrArg (·.start.byte) hspan
  obtain hmem | hmem := wf.mem_or_mem_of_span hs.1 ht.1 hs.isPart ht.isPart hspan hnonempty
  · obtain h | hin := Node.mem_preorder.1 hmem
    · exact h
    · exact absurd (start_lt wf ht hs htspread hin) (by omega)
  · obtain h | hin := Node.mem_preorder.1 hmem
    · exact h.symm
    · exact absurd (start_lt wf hs ht hsspread hin) (by omega)

end IsSubject

end Syntax.Node

/-! ### Callbacks -/

namespace Spawner

theorem spreadInner_cases (argument : Node) : spreadInner argument = argument ∨
    argument.kind = .variadicArgument ∧ spreadInner argument ∈ argument.parts := by
  unfold spreadInner
  split
  next hkind =>
    cases hparts : argument.parts with
    | nil => exact .inl rfl
    | cons n ns => exact .inr ⟨hkind, List.mem_cons_self ..⟩
  next => exact .inl rfl

/-- A callback is an argument, or what an argument spreads. -/
theorem exists_argument_of_mem_callbacksOf {s : Spawner} {call : Node} {callback : Callback}
    (h : callback ∈ s.callbacksOf call) :
    ∃ argument ∈ call.arguments, callback.expr = argument ∨
      callback.expr = spreadInner argument := by
  obtain h | h := List.mem_append.1 h
  · obtain ⟨argument, hargument, rfl⟩ := List.mem_map.1 h
    obtain ⟨i, -, hi⟩ := List.mem_filterMap.1 hargument
    exact ⟨argument, List.mem_of_getElem? hi, .inr rfl⟩
  · split at h
    next first hfirst =>
      unfold variadicCallbacks at h
      dsimp only at h
      split at h
      next => simp at h
      next last hlast =>
        split at h
        · obtain rfl := List.mem_singleton.1 h
          exact ⟨last, List.mem_of_mem_drop (List.mem_of_getLast? hlast), .inr rfl⟩
        · obtain ⟨⟨argument, i⟩, hargument, rfl⟩ := List.mem_map.1 h
          exact ⟨argument, List.mem_of_mem_drop (List.fst_mem_of_mem_zipIdx hargument), .inl rfl⟩
    next => simp at h

end Spawner

/-- The callbacks of a site are arguments of its call. -/
theorem SpawnSite.isArgument {spawners : List Spawner} {r : Resolution} {root call : Node}
    {site : SpawnSite} {callback : Callback} (wf : root.WellFormed) (hcall : call ∈ root.preorder)
    (hsite : ofCall spawners r call = some site) (h : callback ∈ site.callbacks) :
    IsArgument root callback.expr := by
  rw [(spawner_of_ofCall hsite).2] at h
  obtain ⟨argument, hargument, hexpr⟩ := Spawner.exists_argument_of_mem_callbacksOf h
  obtain ⟨list, hlist, hkind, hmem⟩ := exists_argumentList wf hcall hargument
  refine ⟨list, hlist, hkind, ?_⟩
  obtain heq | heq := hexpr
  · exact .inl (heq ▸ hmem)
  · obtain hself | ⟨hspread, hinner⟩ := Spawner.spreadInner_cases argument
    · exact .inl (heq.trans hself ▸ hmem)
    · exact .inr ⟨argument, hmem, hspread, heq ▸ hinner⟩

/-! ### Findings -/

namespace Inspection

variable {i : Inspection} {f : Finding} {statement call callee subject expr : Node}

def InTokenScope (i : Inspection) (n : Node) : Prop :=
  (TokenScope.around i.resolution.root i.resolution.imports i.settings.carriers n).isSome

/-- In a token scope stands a subject, a `go` statement with the callee of its call or a callback of
a spawn site, which is its own closure. -/
inductive Spawns (i : Inspection) : Node → Node → Prop
  | goStatement {statement call callee : Node} (mem : statement ∈ i.resolution.root.preorder)
      (kind : statement.kind = .goStatement) (scope : i.InTokenScope statement)
      (spawned : spawnedCall statement = some (call, callee)) : Spawns i statement callee
  | callback {call : Node} {site : SpawnSite} {callback : Callback}
      (mem : call ∈ i.resolution.root.preorder) (kind : call.kind = .callExpression)
      (scope : i.InTokenScope call)
      (matched : SpawnSite.ofCall i.spawners i.resolution call = some site)
      (callback_mem : callback ∈ site.callbacks) : Spawns i callback.expr callback.expr

def Condemns (i : Inspection) (subject expr : Node) : Prop :=
  i.goUsesToken expr subject = false ∨
    ∃ site callback call, callback.expr = expr ∧ i.callbackUsesToken site callback call = false

theorem inner_of_spawnedCall (h : spawnedCall statement = some (call, callee)) :
    callee ∈ statement.inner := by
  simp only [spawnedCall, Option.bind_eq_bind, Option.bind_eq_some_iff] at h
  obtain ⟨found, hfound, h⟩ := h
  split at h
  next =>
    obtain ⟨function, hfunction, heq⟩ := Option.bind_eq_some_iff.1 h
    obtain ⟨rfl, rfl⟩ : found = call ∧ function = callee := by simpa using heq
    have hcall : found ∈ statement.parts := List.mem_of_head? hfound
    exact inner_trans (inner_of_mem_filter hcall)
      (inner_of_child (mem_children_of_child? hfunction).1)
  next => simp at h

namespace Spawns

/-- A subject is a `go` statement, or an argument that is the closure itself. -/
theorem subject_cases (h : i.Spawns subject expr) (wf : i.resolution.root.WellFormed) :
    (subject ∈ i.resolution.root.preorder ∧ subject.kind = .goStatement ∧
        ∃ call, spawnedCall subject = some (call, expr)) ∨
      (expr = subject ∧ IsArgument i.resolution.root subject) := by
  cases h with
  | goStatement mem kind _ spawned => exact .inl ⟨mem, kind, _, spawned⟩
  | callback mem _ _ matched callback_mem =>
    exact .inr ⟨rfl, SpawnSite.isArgument wf mem matched callback_mem⟩

theorem isSubject (h : i.Spawns subject expr) (wf : i.resolution.root.WellFormed) :
    IsSubject i.resolution.root subject := by
  obtain ⟨hmem, hkind, -⟩ | ⟨-, hargument⟩ := h.subject_cases wf
  · exact ⟨hmem, .inl hkind⟩
  · exact ⟨hargument.mem_preorder, .inr hargument⟩

theorem expr_mem (h : i.Spawns subject expr) (wf : i.resolution.root.WellFormed) :
    expr ∈ subject.preorder := by
  obtain ⟨-, -, call, hspawned⟩ | ⟨rfl, -⟩ := h.subject_cases wf
  · exact preorder_of_inner (inner_of_spawnedCall hspawned)
  · exact self_mem_preorder _

/-- A subject is no spread argument, unless its closure is one. -/
theorem kind_ne_variadicArgument (h : i.Spawns subject expr) (wf : i.resolution.root.WellFormed)
    (hexpr : expr.kind ≠ .variadicArgument) : subject.kind ≠ .variadicArgument := by
  obtain ⟨-, hgo, -⟩ | ⟨rfl, -⟩ := h.subject_cases wf
  · simp [hgo]
  · exact hexpr

/-- A subject has one closure. -/
theorem expr_eq {expr' : Node} (h : i.Spawns subject expr) (h' : i.Spawns subject expr')
    (wf : i.resolution.root.WellFormed) : expr = expr' := by
  have hgo : IsArgument i.resolution.root subject → subject.kind ≠ .goStatement :=
      fun harg hkind => by
    have hplain := harg.isPlain wf
    rw [hkind] at hplain
    cases hplain
  obtain ⟨-, hkind, call, hspawned⟩ | ⟨rfl, harg⟩ := h.subject_cases wf
  · obtain ⟨-, -, call', hspawned'⟩ | ⟨-, harg⟩ := h'.subject_cases wf
    · exact (Prod.mk.inj (Option.some.inj (hspawned.symm.trans hspawned'))).2
    · exact absurd hkind (hgo harg)
  · obtain ⟨-, hkind, -⟩ | ⟨rfl, -⟩ := h'.subject_cases wf
    · exact absurd hkind (hgo harg)
    · rfl

end Spawns

/-- A propagation finding shows the span of a subject whose closure is condemned. -/
theorem exists_spawns_of_mem_findings (h : f ∈ i.findings) (hkind : f.checker.kind = .propagation) :
    ∃ subject expr, i.Spawns subject expr ∧ f.span = subject.span ∧ i.Condemns subject expr := by
  have hderive : f.checker ≠ .derive := fun h => by
    rw [h] at hkind
    cases hkind
  obtain ⟨n, hn, h⟩ := List.mem_flatMap.1 h
  obtain ⟨scope, hscope, ⟨hgo, h⟩ | ⟨hcall, site, hsite, callback, hcallback, h⟩⟩ :=
    mem_siteFindings h
  · obtain ⟨call, callee, hspawned, ⟨-, hspan, huses⟩ | h⟩ := mem_goFindings h
    · exact ⟨n, callee, .goStatement hn hgo (Option.isSome_iff_exists.2 ⟨scope, hscope⟩) hspawned,
        hspan, .inl huses⟩
    · exact absurd h hderive
  · obtain ⟨-, hspan, huses⟩ | h := mem_callbackFindings h
    · exact ⟨callback.expr, callback.expr,
        .callback hn hcall (Option.isSome_iff_exists.2 ⟨scope, hscope⟩) hsite hcallback, hspan,
        .inr ⟨site, callback, n, rfl, huses⟩⟩
    · exact absurd h hderive

end Inspection

end Handoff

import Handoff.Proofs.Closure.Replica
import Handoff.Proofs.Syntax.Grammar.File

/-!
# Calls on the way through a body

A body makes a call when every node above the call lets it through. A block does so up to its first
`return`, a function literal when it is called on the spot and for what is in its body, a `go`
statement for the arguments of its call, and a call of a literal for its arguments and that body.
Everything else lets all calls through, except that type arguments of a call are not looked into.
The list of calls of a body has each call that it makes once, marked as deferred just when a `defer`
statement is above it, and no other calls.

## Main definitions

* `CallSite.Allows`: a node lets a call below it through.
* `CallSite.Makes`: a body makes a call.

## Main statement

* `CallSite.ofBody_exact`: which calls are listed, how often, and with which mark.
-/

namespace Handoff

open Syntax Node

variable {root n m k c s : Node}

namespace Syntax.Node

def HoldsIn (n : Node) (f : Field) (c : Node) : Prop :=
  ∃ k, n.child? f = some k ∧ c ∈ k.preorder

def Calls (call callee : Node) : Prop :=
  ∃ function, call.child? .function = some function ∧ function.bare = callee

theorem HoldsIn.inner {f : Field} (h : n.HoldsIn f c) : c ∈ n.inner := by
  obtain ⟨k, hk, hc⟩ := h
  exact inner_of_preorder (inner_of_child (mem_children_of_child? hk).1) hc

theorem HoldsIn.mono {f : Field} (h : n.HoldsIn f m) (hc : c ∈ m.preorder) : n.HoldsIn f c := by
  obtain ⟨k, hk, hm⟩ := h
  exact ⟨k, hk, preorder_trans hm hc⟩

theorem Calls.holdsIn (h : n.Calls m) : n.HoldsIn .function m := by
  obtain ⟨function, hfunction, rfl⟩ := h
  exact ⟨function, hfunction, bare_mem_preorder function⟩

theorem Calls.eq (h : n.Calls m) (h' : n.Calls k) : m = k := by
  obtain ⟨function, hfunction, rfl⟩ := h
  obtain ⟨function', hfunction', rfl⟩ := h'
  rw [Option.some.inj (hfunction.symm.trans hfunction')]

/-- A node stands in one field only. -/
theorem Distinct.field_eq {f g : Field} (h : root.Distinct) (hn : n ∈ root.preorder)
    (hf : n.HoldsIn f c) (hg : n.HoldsIn g c) : f = g := by
  obtain ⟨k, hk, hc⟩ := hf
  obtain ⟨k', hk', hc'⟩ := hg
  by_contra hne
  exact h.apart hn (mem_children_of_child? hk).1 (mem_children_of_child? hk').1
    (ne_of_child? hk hk' hne) c hc hc'

namespace WellFormed

/-- A `go` or `defer` statement has one part at most. -/
theorem eq_of_mem_parts (wf : n.WellFormed)
    (hkind : n.kind = .goStatement ∨ n.kind = .deferStatement) (hc : c ∈ n.parts)
    (hk : k ∈ n.parts) : c = k := by
  have hshaped : ((n.children.filter fun c => c.kind ≠ .comment ∨ c.field ≠ none).map fun c =>
      (c.kind, c.field)).Pairwise fun c k => ¬ (c.1.isNamed = true ∧ k.1.isNamed = true) := by
    have hshaped := wf.shaped n (self_mem_preorder n)
    obtain hkind | hkind := hkind <;> rwa [hkind] at hshaped
  have hmem : ∀ c ∈ n.parts, c ∈ n.children.filter fun c => c.kind ≠ .comment ∨ c.field ≠ none := by
    intro c hc
    obtain ⟨hc, hpart⟩ := List.mem_filter.1 hc
    exact List.mem_filter.2 ⟨hc, by simp_all [isPart]⟩
  have hnamed : ∀ c ∈ n.parts, c.kind.isNamed = true := by
    intro c hc
    have hpart := (List.mem_filter.1 hc).2
    simp_all [isPart]
  have symm : Std.Symm fun c k : Node => ¬ (c.kind.isNamed = true ∧ k.kind.isNamed = true) :=
    ⟨fun _ _ h h' => h h'.symm⟩
  by_contra hne
  exact (List.pairwise_map.1 hshaped).forall (hmem c hc) (hmem k hk) hne ⟨hnamed c hc, hnamed k hk⟩

/-- What is in a call is in what it calls, in its arguments or in its type arguments. -/
theorem holdsIn_of_call (wf : n.WellFormed) (hkind : n.kind = .callExpression) (hc : c ∈ n.inner)
    (hpart : c.isPart = true) :
    n.HoldsIn .function c ∨ n.HoldsIn .arguments c ∨ n.HoldsIn .typeArguments c := by
  have hshaped := wf.shaped n (self_mem_preorder n)
  rw [hkind] at hshaped
  simp only [Kind.Demands, List.map_map, Function.comp_def] at hshaped
  have hnodup :
      ((n.children.filter fun c => c.kind ≠ .comment ∨ c.field ≠ none).map Node.field).Nodup := by
    obtain h | h := hshaped <;> rw [h] <;> decide
  obtain ⟨k, hk, hc⟩ := mem_inner.1 hc
  have hmem : k ∈ n.children.filter fun c => c.kind ≠ .comment ∨ c.field ≠ none := by
    have hkpart := (wf.child hk).isPart_of_mem hc hpart
    exact List.mem_filter.2 ⟨hk, by simp_all [isPart]⟩
  have hholds : ∀ f, k.field = some f → n.HoldsIn f c := by
    intro f hf
    have hsome : (n.child? f).isSome = true := List.find?_isSome.2 ⟨k, hk, beq_iff_eq.2 hf⟩
    obtain ⟨k', hk'⟩ := Option.isSome_iff_exists.1 hsome
    obtain ⟨hchild, hfield⟩ := mem_children_of_child? hk'
    have hmem' : k' ∈ n.children.filter fun c => c.kind ≠ .comment ∨ c.field ≠ none :=
      List.mem_filter.2 ⟨hchild, by simp [hfield]⟩
    obtain rfl := List.inj_on_of_nodup_map hnodup hmem hmem' (hf.trans hfield.symm)
    exact ⟨k, hk', hc⟩
  have hfield : k.field = some .function ∨ k.field = some .arguments ∨
      k.field = some .typeArguments := by
    have hfield := List.mem_map_of_mem (f := Node.field) hmem
    obtain h | h := hshaped <;> rw [h] at hfield <;>
      simp only [List.mem_cons, List.not_mem_nil, or_false] at hfield
    all_goals tauto
  exact hfield.imp (hholds _) (Or.imp (hholds _) (hholds _))

end WellFormed

end Syntax.Node

namespace CallSite

/-- A node lets a call below it through, on the way from the start of a body. -/
structure Allows (body n c : Node) : Prop where
  block : n.kind = .block → ∃ s ∈ n.parts, c ∈ s.preorder ∧
    ∀ t, [t, s].Sublist n.parts → t.kind ≠ .returnStatement
  literal : n.kind = .funcLiteral →
    (∃ call ∈ body.preorder, call.kind = .callExpression ∧ call.Calls n) ∧ n.HoldsIn .body c
  spawned : n.kind = .goStatement → ∃ call ∈ n.parts, call.kind = .callExpression ∧
    call.HoldsIn .arguments c
  called : n.kind = .callExpression → ∀ f, n.Calls f → f.kind = .funcLiteral →
    n.HoldsIn .arguments c ∨ f.HoldsIn .body c

/-- A body makes a call: it calls no function literal, all that is above it lets it through, and it
is in no type argument of a call. -/
structure Makes (body c : Node) : Prop where
  call : c.kind = .callExpression
  callee : ∃ f, c.Calls f ∧ f.kind ≠ .funcLiteral
  allowed : ∀ n ∈ body.preorder, c ∈ n.inner → Allows body n c
  untyped : ∀ n ∈ body.preorder, n.kind = .callExpression → ¬ n.HoldsIn .typeArguments c

def IsDeferred (body c : Node) : Prop :=
  ∃ n ∈ body.preorder, n.kind = .deferStatement ∧ c ∈ n.inner

/-! ### One step of the walk -/

def untilReturn : List Node → List Node
  | [] => []
  | s :: rest => s :: if s.kind = .returnStatement then [] else untilReturn rest

/-- The nodes that the walk goes on with. -/
def entered (n : Node) : List Node :=
  match n.kind with
  | .block => untilReturn n.parts
  | .funcLiteral => []
  | .goStatement => (n.parts.head?.filter (·.kind == .callExpression)).toList.flatMap fun call =>
      (call.child? .arguments).toList
  | .deferStatement => n.parts.head?.toList
  | .callExpression =>
    (n.child? .arguments).toList ++ (n.child? .function).toList.flatMap fun function =>
      if function.bare.kind = .funcLiteral then (function.bare.child? .body).toList else [function]
  | _ => n.parts

/-- The call itself, if it calls no literal. -/
def own (deferred : Bool) (n : Node) : List CallSite :=
  if n.kind = .callExpression then
    ((n.child? .function).filter (·.bare.kind != .funcLiteral)).toList.map fun _ => ⟨n, deferred⟩
  else []

theorem withinStatements_eq {deferred : Bool} {cs : List Node} (h : ∀ s ∈ cs, s.isPart = true) :
    withinStatements deferred cs = (untilReturn cs).flatMap (within deferred) := by
  induction cs with
  | nil => rw [withinStatements]; rfl
  | cons s cs ih =>
    obtain ⟨hs, hcs⟩ := List.forall_mem_cons.1 h
    rw [withinStatements, if_pos hs, untilReturn, List.flatMap_cons]
    split
    · rfl
    · rw [ih hcs]

theorem withinLiteral_of_bare {deferred : Bool} (h : n.bare.kind = .funcLiteral) :
    withinLiteral deferred n = (n.bare.child? .body).toList.flatMap (within deferred) := by
  induction n using childrenInduction with
  | step n ih =>
    rw [withinLiteral_eq]
    by_cases hparen : n.kind = .parenthesizedExpression
    · rw [bare_eq, if_pos hparen] at h
      rw [bare_eq, if_pos hparen, if_pos hparen]
      cases hfirst : n.parts.head? with
      | none =>
        rw [hfirst] at h
        cases hparen.symm.trans h
      | some first =>
        rw [hfirst] at h
        exact ih first (List.mem_of_mem_filter (List.mem_of_mem_head? hfirst)) h
    · rw [bare_eq_self hparen, if_neg hparen]
      cases n.child? .body <;> simp

theorem entered_eq_parts (hblock : n.kind ≠ .block) (hfunction : n.kind ≠ .funcLiteral)
    (hgo : n.kind ≠ .goStatement) (hdefer : n.kind ≠ .deferStatement)
    (hcall : n.kind ≠ .callExpression) : entered n = n.parts := by
  unfold entered
  split <;> first | contradiction | rfl

/-- The walk goes on in the nodes it enters, and lists the call itself last. -/
theorem within_eq_entered (deferred : Bool) (n : Node) : within deferred n =
    (entered n).flatMap (within (deferred || decide (n.kind = .deferStatement))) ++
      own deferred n := by
  have htoList : ∀ (o : Option Node) (d : Bool), (o.map (within d)).getD [] =
      o.toList.flatMap (within d) := by
    intro o d
    cases o <;> simp
  rw [within_eq, own]
  split
  next hk =>
    have hparts : ∀ s ∈ n.parts, s.isPart = true := fun s hs => (List.mem_filter.1 hs).2
    rw [withinStatements_eq hparts]
    simp [entered, hk]
  next hk => simp [entered, hk]
  next hk =>
    rw [spawnsCall, entered, hk]
    cases n.parts.head? with
    | none => simp
    | some call =>
      rw [Option.any_some, Option.map_some, Option.getD_some, withinField_eq, htoList]
      cases hcall : call.kind == .callExpression <;> simp [hcall, Option.filter_some]
  next hk =>
    rw [htoList, entered, hk]
    simp
  next hk =>
    rw [htoList, calleeIsLiteral, entered, hk]
    cases n.child? .function with
    | none => simp
    | some function =>
      by_cases hliteral : function.bare.kind = .funcLiteral
      · simp [hliteral, withinLiteral_of_bare hliteral, Option.filter_some]
      · simp [hliteral, Option.filter_some]
  next hblock hfunction hgo hdefer hcall =>
    rw [entered_eq_parts hblock hfunction hgo hdefer hcall, decide_eq_false hdefer, if_neg hcall,
      Bool.or_false, List.append_nil]

/-! ### Nodes that are entered -/

inductive Enters (n k : Node) : Prop where
  | part : k ∈ n.parts → n.kind ≠ .funcLiteral → n.kind ≠ .goStatement →
      n.kind ≠ .callExpression → Enters n k
  | spawned {call : Node} : n.kind = .goStatement → call ∈ n.parts → call.kind = .callExpression →
      call.child? .arguments = some k → Enters n k
  | arguments : n.kind = .callExpression → n.child? .arguments = some k → Enters n k
  | function : n.kind = .callExpression → n.child? .function = some k →
      k.bare.kind ≠ .funcLiteral → Enters n k
  | literal {literal : Node} : n.kind = .callExpression → n.Calls literal →
      literal.kind = .funcLiteral → literal.child? .body = some k → Enters n k

theorem untilReturn_sublist (cs : List Node) : (untilReturn cs).Sublist cs := by
  induction cs with
  | nil => exact .slnil
  | cons s cs ih =>
    rw [untilReturn]
    split
    · exact (List.nil_sublist cs).cons_cons s
    · exact ih.cons_cons s

/-- The statements that no `return` comes before. -/
theorem mem_untilReturn {cs : List Node} (hnodup : cs.Nodup) (hs : s ∈ cs) :
    s ∈ untilReturn cs ↔ ∀ t, [t, s].Sublist cs → t.kind ≠ .returnStatement := by
  induction cs with
  | nil => cases hs
  | cons first cs ih =>
    obtain ⟨hfirst, hnodup⟩ := List.nodup_cons.1 hnodup
    rw [untilReturn, List.mem_cons]
    obtain rfl | hs := List.mem_cons.1 hs
    · -- Nothing comes before the first statement.
      refine iff_of_true (.inl rfl) fun t ht => absurd ?_ hfirst
      cases ht with
      | cons _ ht => exact ht.subset (by simp)
      | cons_cons _ ht => exact List.singleton_sublist.1 ht
    · have hne : s ≠ first := fun h => hfirst (h ▸ hs)
      rw [or_iff_right hne]
      split
      next hreturn =>
        refine iff_of_false List.not_mem_nil fun hall => hall first ?_ hreturn
        exact (List.singleton_sublist.2 hs).cons_cons first
      next hreturn =>
        rw [ih hnodup hs]
        refine ⟨fun hall t ht => ?_, fun hall t ht => hall t (ht.cons first)⟩
        cases ht with
        | cons _ ht => exact hall t ht
        | cons_cons _ ht => exact hreturn

theorem mem_entered_of_call (hkind : n.kind = .callExpression) : k ∈ entered n ↔
    n.child? .arguments = some k ∨ ∃ function, n.child? .function = some function ∧
      if function.bare.kind = .funcLiteral then function.bare.child? .body = some k
        else k = function := by
  rw [entered, hkind]
  simp only [List.mem_append, List.mem_flatMap, Option.mem_toList]
  refine or_congr_right (exists_congr fun function => and_congr_right fun _ => ?_)
  split <;> simp

/-- The walk goes on only with what the node itself holds, each in one of the ways listed. -/
theorem enters_of_mem (h : k ∈ entered n) : Enters n k := by
  by_cases hcall : n.kind = .callExpression
  · obtain hk | ⟨function, hfunction, hk⟩ := (mem_entered_of_call hcall).1 h
    · exact .arguments hcall hk
    · split at hk
      next hliteral => exact .literal hcall ⟨function, hfunction, rfl⟩ hliteral hk
      next hliteral => exact .function hcall (hk ▸ hfunction) (hk ▸ hliteral)
  · unfold entered at h
    split at h
    next hk => exact .part ((untilReturn_sublist _).subset h) (by simp [hk]) (by simp [hk]) hcall
    next => cases h
    next hk =>
      obtain ⟨call, hfirst, harguments⟩ := List.mem_flatMap.1 h
      obtain ⟨hfirst, hkind⟩ := Option.filter_eq_some_iff.1 (Option.mem_toList.1 hfirst)
      exact .spawned hk (List.mem_of_mem_head? hfirst) (eq_of_beq hkind)
        (Option.mem_toList.1 harguments)
    next hk =>
      exact .part (List.mem_of_mem_head? (Option.mem_toList.1 h)) (by simp [hk])
        (by simp [hk]) hcall
    next hk => exact absurd hk hcall
    next hblock hfunction hgo hdefer _ => exact .part h hfunction hgo hcall

theorem Enters.inner (h : Enters n k) : k ∈ n.inner := by
  have hfield : ∀ {m : Node} {f : Field}, m.child? f = some k → k ∈ m.inner := fun hk =>
    inner_of_child (mem_children_of_child? hk).1
  cases h with
  | part hk => exact inner_of_mem_filter hk
  | spawned _ hcall _ hk => exact inner_trans (inner_of_mem_filter hcall) (hfield hk)
  | arguments _ hk => exact hfield hk
  | function _ hk => exact hfield hk
  | literal _ hcalls _ hk => exact inner_trans hcalls.holdsIn.inner (hfield hk)

section Walk

variable (wf : n.WellFormed)
include wf

/-- What holds a child of a node below the node is the node. -/
theorem eq_of_child (hc : c ∈ n.children) (hm : m ∈ n.preorder) (hin : c ∈ m.inner) : m = n := by
  have hn := wf.distinct.preorder_of_child (self_mem_preorder n) hc hm hin
  obtain rfl | hn := mem_preorder.1 hn
  · rfl
  · exact absurd (inner_of_preorder hn hm) not_inner_self

/-- What stands between a node and one that is entered from it. -/
theorem Enters.between (h : Enters n k) (hm : m ∈ n.preorder) (hin : k ∈ m.inner) :
    m = n ∨ m.kind = .parenthesizedExpression ∨
      (n.kind = .callExpression ∧ n.Calls m ∧ m.kind = .funcLiteral ∧ m.child? .body = some k) ∨
      (n.kind = .goStatement ∧ m ∈ n.parts ∧ m.kind = .callExpression ∧
        m.child? .arguments = some k) := by
  cases h with
  | part hk => exact .inl (eq_of_child wf (List.mem_of_mem_filter hk) hm hin)
  | @spawned call hkind hcall hcallKind hk =>
    have hchild := List.mem_of_mem_filter hcall
    have hcallIn := wf.distinct.preorder_of_child (child_mem_preorder hchild)
      (mem_children_of_child? hk).1 hm hin
    obtain rfl | hcallIn := mem_preorder.1 hcallIn
    · exact .inr (.inr (.inr ⟨hkind, hcall, hcallKind, hk⟩))
    · exact .inl (eq_of_child wf hchild hm hcallIn)
  | arguments _ hk => exact .inl (eq_of_child wf (mem_children_of_child? hk).1 hm hin)
  | function _ hk => exact .inl (eq_of_child wf (mem_children_of_child? hk).1 hm hin)
  | @literal literal hkind hcalls hliteral hk =>
    have hliteralIn := wf.distinct.preorder_of_child (preorder_of_inner hcalls.holdsIn.inner)
      (mem_children_of_child? hk).1 hm hin
    obtain rfl | hliteralIn := mem_preorder.1 hliteralIn
    · exact .inr (.inr (.inl ⟨hkind, hcalls, hliteral, hk⟩))
    · by_cases hparen : m.kind = .parenthesizedExpression
      · exact .inr (.inl hparen)
      · obtain ⟨function, hfunction, rfl⟩ := hcalls
        have hchild := (mem_children_of_child? hfunction).1
        exact .inl (eq_of_child wf hchild hm (inner_of_bare wf.distinct hm hparen
          (child_mem_preorder hchild) hliteralIn))

/-- Around what is entered, a call has it in its arguments or in what it calls. -/
theorem Enters.holdsIn (h : Enters n k) (hm : m ∈ n.preorder) (hin : k ∈ m.inner)
    (hkind : m.kind = .callExpression) : m.HoldsIn .arguments k ∨ m.HoldsIn .function k := by
  obtain rfl | hk | ⟨-, -, hk, -⟩ | ⟨-, -, -, hk⟩ := h.between wf hm hin
  · cases h with
    | part _ _ _ hk => exact absurd hkind hk
    | spawned hk => cases hk.symm.trans hkind
    | arguments _ hk => exact .inl ⟨k, hk, self_mem_preorder k⟩
    | function _ hk => exact .inr ⟨k, hk, self_mem_preorder k⟩
    | literal _ hcalls _ hk => exact .inr (hcalls.holdsIn.mono (preorder_of_child? hk))
  · cases hk.symm.trans hkind
  · cases hk.symm.trans hkind
  · exact .inl ⟨k, hk, self_mem_preorder k⟩

/-- No two of the entered nodes share a node, so no call is met twice. -/
theorem pairwise_apart_entered : (entered n).Pairwise Apart := by
  have hsingle : ∀ o : Option Node, o.toList.Pairwise Apart := fun o => by cases o <;> simp
  have hparts : n.parts.Pairwise Apart :=
    (wf.distinct.pairwise_apart (self_mem_preorder n)).sublist List.filter_sublist
  unfold entered
  split
  · exact hparts.sublist (untilReturn_sublist _)
  · exact .nil
  · cases n.parts.head?.filter (·.kind == .callExpression) <;> simp [hsingle]
  · exact hsingle _
  · refine List.pairwise_append.2 ⟨hsingle _, ?_, fun a ha b hb x hx hx' => ?_⟩
    · cases n.child? .function with
      | none => exact .nil
      | some function =>
        rw [Option.toList_some, List.flatMap_singleton]
        split
        · exact hsingle _
        · exact List.pairwise_singleton ..
    · obtain ⟨function, hfunction, hb⟩ := List.mem_flatMap.1 hb
      have hfunction := Option.mem_toList.1 hfunction
      have hbin : b ∈ function.preorder := by
        split at hb
        · exact preorder_trans (bare_mem_preorder function)
            (preorder_of_child? (Option.mem_toList.1 hb))
        · obtain rfl := List.mem_singleton.1 hb
          exact self_mem_preorder b
      cases wf.distinct.field_eq (self_mem_preorder n) ⟨a, Option.mem_toList.1 ha, hx⟩
        ⟨function, hfunction, preorder_trans hbin hx'⟩
  · exact hparts

/-! ### Calls that a body makes are those that the entered nodes make -/

omit wf in
theorem Allows.mono (h : Allows k m c) (hk : k.preorder ⊆ n.preorder) : Allows n m c where
  block := h.block
  literal hkind := by
    obtain ⟨⟨call, hcall, hcalls⟩, hbody⟩ := h.literal hkind
    exact ⟨⟨call, hk hcall, hcalls⟩, hbody⟩
  spawned := h.spawned
  called := h.called

/-- A node lets through whatever the walk meets below it. -/
theorem allows_self (h : k ∈ entered n) (hc : c ∈ k.preorder) : Allows n n c := by
  have henters := enters_of_mem h
  refine ⟨fun hkind => ?_, fun hkind => ?_, fun hkind => ?_, fun hkind f hf hliteral => ?_⟩
  · rw [entered, hkind] at h
    have hpart := (untilReturn_sublist _).subset h
    exact ⟨k, hpart, hc, (mem_untilReturn wf.nodup_parts hpart).1 h⟩
  · rw [entered, hkind] at h
    cases h
  · cases henters with
    | part _ _ hgo => exact absurd hkind hgo
    | spawned _ hcall hcallKind hk => exact ⟨_, hcall, hcallKind, k, hk, hc⟩
    | arguments hcall | function hcall | literal hcall => cases hkind.symm.trans hcall
  · cases henters with
    | part _ _ _ hcall => exact absurd hkind hcall
    | spawned hgo => cases hkind.symm.trans hgo
    | arguments _ hk => exact .inl ⟨k, hk, hc⟩
    | function _ hk hplain =>
      obtain rfl := hf.eq ⟨k, hk, rfl⟩
      exact absurd hliteral hplain
    | literal _ hcalls _ hk =>
      obtain rfl := hf.eq hcalls
      exact .inr ⟨k, hk, hc⟩

/-- What an entered node makes, the node around it makes. -/
theorem Makes.of_entered (h : k ∈ entered n) (hc : c ∈ k.preorder)
    (hmakes : Makes k c) : Makes n c := by
  have henters := enters_of_mem h
  have hk := preorder_of_inner henters.inner
  have hsub : k.preorder ⊆ n.preorder := fun x hx => preorder_trans hk hx
  refine ⟨hmakes.call, hmakes.callee, fun m hm hin => ?_, fun m hm hkind htyped => ?_⟩
  · obtain hmk | hkm := wf.distinct.mem_or_mem hm hk (preorder_of_inner hin) hc
    · exact (hmakes.allowed m hmk hin).mono hsub
    obtain rfl | hparen | ⟨hkind, hcalls, hliteral, hbody⟩ | ⟨hkind, hpart, hcall, harguments⟩ :=
      henters.between wf hm hkm
    · exact allows_self wf h hc
    · constructor <;> intro hkind <;> cases hparen.symm.trans hkind
    · refine ⟨?_, fun _ => ⟨⟨n, self_mem_preorder n, hkind, hcalls⟩, ⟨k, hbody, hc⟩⟩, ?_, ?_⟩ <;>
        intro hkind <;>
        cases hliteral.symm.trans hkind
    · refine ⟨?_, ?_, ?_, fun _ _ _ _ => .inl ⟨k, harguments, hc⟩⟩ <;> intro hkind <;>
        cases hcall.symm.trans hkind
  · obtain hmk | hkm := wf.distinct.mem_or_mem hm hk (preorder_of_inner htyped.inner) hc
    · exact hmakes.untyped m hmk hkind htyped
    · obtain hheld | hheld := henters.holdsIn wf hm hkm hkind <;>
        cases wf.distinct.field_eq hm (hheld.mono hc) htyped

/-- A call that a node makes is made by the entered node that holds it. -/
theorem Makes.entered (h : k ∈ entered n) (hmakes : Makes n c) : Makes k c := by
  have henters := enters_of_mem h
  have hk := preorder_of_inner henters.inner
  have hsub : k.preorder ⊆ n.preorder := fun x hx => preorder_trans hk hx
  refine ⟨hmakes.call, hmakes.callee, fun m hm hin => ?_, fun m hm => hmakes.untyped m (hsub hm)⟩
  have hallows := hmakes.allowed m (hsub hm) hin
  refine ⟨hallows.block, fun hkind => ?_, hallows.spawned, hallows.called⟩
  -- The call of a literal that was entered is inside, or the literal would be in another field.
  obtain ⟨⟨call, hcall, hcallKind, hcalls⟩, hbody⟩ := hallows.literal hkind
  refine ⟨⟨call, ?_, hcallKind, hcalls⟩, hbody⟩
  refine (wf.distinct.mem_or_mem hcall hk (preorder_of_inner hcalls.holdsIn.inner) hm).resolve_right
    fun hin => ?_
  have hother : call.child? .arguments ≠ some k := fun harguments => by
    cases wf.distinct.field_eq hcall hcalls.holdsIn ⟨k, harguments, hm⟩
  obtain rfl | hparen | ⟨-, -, hliteral, -⟩ | ⟨-, -, -, harguments⟩ := henters.between wf hcall hin
  · cases henters with
    | part _ _ _ hkind => exact hkind hcallKind
    | spawned hgo => cases hgo.symm.trans hcallKind
    | arguments _ harguments => exact hother harguments
    | function _ hfunction hplain =>
      obtain rfl := hcalls.eq ⟨k, hfunction, rfl⟩
      exact hplain hkind
    | literal _ hcalls' _ hbody =>
      obtain rfl := hcalls.eq hcalls'
      exact not_inner_self (inner_of_preorder (inner_of_child (mem_children_of_child? hbody).1) hm)
  · cases hparen.symm.trans hcallKind
  · cases hliteral.symm.trans hcallKind
  · exact hother harguments

/-- The walk gets to every call that a node makes. -/
theorem Makes.exists_entered (hmakes : Makes n c) (hc : c ∈ n.inner) :
    ∃ k ∈ CallSite.entered n, c ∈ k.preorder := by
  have hpart : c.isPart = true := by rw [isPart, hmakes.call]; rfl
  have hself := hmakes.allowed n (self_mem_preorder n) hc
  have hparts : ∃ k ∈ n.parts, c ∈ k.preorder := by
    obtain ⟨k, hk, hc⟩ := mem_inner.1 hc
    exact ⟨k, List.mem_filter.2 ⟨hk, (wf.child hk).isPart_of_mem hc hpart⟩, hc⟩
  -- `go` and `defer` have one part
  have hhead : n.kind = .goStatement ∨ n.kind = .deferStatement →
      ∀ k ∈ n.parts, n.parts.head? = some k := by
    intro hkind k hk
    cases hfirst : n.parts with
    | nil => rw [hfirst] at hk; cases hk
    | cons first rest =>
      rw [wf.eq_of_mem_parts hkind hk (by rw [hfirst]; exact List.mem_cons_self), List.head?_cons]
  -- in a call the node stands in the function, the arguments or the type arguments
  by_cases hcall : n.kind = .callExpression
  · simp only [mem_entered_of_call hcall]
    obtain ⟨function, hfunction, hin⟩ | ⟨arguments, harguments, hin⟩ | htyped :=
      wf.holdsIn_of_call hcall hc hpart
    · by_cases hliteral : function.bare.kind = .funcLiteral
      · obtain ⟨k, hk, hin⟩ | ⟨k, hk, hin⟩ :=
          hself.called hcall _ ⟨function, hfunction, rfl⟩ hliteral
        · exact ⟨k, .inl hk, hin⟩
        · exact ⟨k, .inr ⟨function, hfunction, by rwa [if_pos hliteral]⟩, hin⟩
      · exact ⟨function, .inr ⟨function, hfunction, by rw [if_neg hliteral]⟩, hin⟩
    · exact ⟨arguments, .inl harguments, hin⟩
    · exact absurd htyped (hmakes.untyped n (self_mem_preorder n) hcall)
  · unfold CallSite.entered
    split
    next hkind =>
      obtain ⟨s, hs, hin, hbefore⟩ := hself.block hkind
      exact ⟨s, (mem_untilReturn wf.nodup_parts hs).2 hbefore, hin⟩
    next hkind =>
      obtain ⟨⟨call, hcall, -, hcalls⟩, -⟩ := hself.literal hkind
      exact absurd (inner_of_preorder hcalls.holdsIn.inner hcall) not_inner_self
    next hkind =>
      obtain ⟨call, hmem, hcallKind, arguments, harguments, hin⟩ := hself.spawned hkind
      refine ⟨arguments, ?_, hin⟩
      rw [hhead (.inl hkind) call hmem]
      simp [Option.filter_some, hcallKind, harguments]
    next hkind =>
      obtain ⟨k, hk, hin⟩ := hparts
      exact ⟨k, by simp [hhead (.inr hkind) k hk], hin⟩
    next hkind => exact absurd hkind hcall
    next => exact hparts

/-- A call is deferred by the node itself or further down. -/
theorem isDeferred_iff (h : k ∈ entered n) (hc : c ∈ k.preorder) :
    IsDeferred n c ↔ n.kind = .deferStatement ∨ IsDeferred k c := by
  have henters := enters_of_mem h
  have hk := preorder_of_inner henters.inner
  constructor
  · rintro ⟨m, hm, hkind, hin⟩
    obtain hmk | hkm := wf.distinct.mem_or_mem hm hk (preorder_of_inner hin) hc
    · exact .inr ⟨m, hmk, hkind, hin⟩
    obtain rfl | hother | ⟨-, -, hother, -⟩ | ⟨-, -, hother, -⟩ := henters.between wf hm hkm
    · exact .inl hkind
    all_goals cases hother.symm.trans hkind
  · rintro (hkind | ⟨m, hm, hkind, hin⟩)
    · exact ⟨n, self_mem_preorder n, hkind, inner_of_preorder henters.inner hc⟩
    · exact ⟨m, preorder_trans hk hm, hkind, hin⟩

end Walk

/-! ### The whole walk -/

def entriesOf (c : Node) (sites : List CallSite) : List CallSite :=
  sites.filter fun site => site.call.id == c.id

section Entries

variable {sites : List CallSite} {ks : List Node} {list : Node → List CallSite}

theorem entriesOf_eq_nil (hroot : root.Distinct) (hc : c ∈ root.preorder)
    (hsites : ∀ site ∈ sites, site.call ∈ root.preorder ∧ site.call ≠ c) :
    entriesOf c sites = [] := by
  refine List.filter_eq_nil_iff.2 fun site hsite hid => ?_
  obtain ⟨hmem, hne⟩ := hsites site hsite
  exact hne (hroot.eq_of_id hmem hc (eq_of_beq hid))

theorem entriesOf_append {more : List CallSite} :
    entriesOf c (sites ++ more) = entriesOf c sites ++ entriesOf c more :=
  List.filter_append ..

variable (hroot : root.Distinct) (hks : ks ⊆ root.preorder)
  (hlist : ∀ k ∈ ks, ∀ site ∈ list k, site.call ∈ k.preorder)
include hroot hks hlist

theorem entriesOf_flatMap_eq_nil (hc : c ∈ root.preorder) (hout : ∀ k ∈ ks, c ∉ k.preorder) :
    entriesOf c (ks.flatMap list) = [] := by
  refine entriesOf_eq_nil hroot hc fun site hsite => ?_
  obtain ⟨k, hk, hsite⟩ := List.mem_flatMap.1 hsite
  have hin := hlist k hk site hsite
  exact ⟨preorder_trans (hks hk) hin, fun heq => hout k hk (heq ▸ hin)⟩

/-- Of lists for nodes apart, the one for the node that holds a call has all entries for it. -/
theorem entriesOf_flatMap (hapart : ks.Pairwise Apart) (hk : k ∈ ks) (hc : c ∈ k.preorder) :
    entriesOf c (ks.flatMap list) = entriesOf c (list k) := by
  obtain ⟨before, after, rfl⟩ := List.append_of_mem hk
  obtain ⟨-, hafter, hbefore⟩ := List.pairwise_append.1 hapart
  have hother : ∀ others ⊆ before ++ k :: after, (∀ k' ∈ others, c ∉ k'.preorder) →
      entriesOf c (others.flatMap list) = [] := fun others hsub =>
    entriesOf_flatMap_eq_nil hroot (fun _ h => hks (hsub h)) (fun k' h => hlist k' (hsub h))
      (preorder_trans (hks hk) hc)
  have hleft := hother before (List.subset_append_left ..) fun k' hk' hin =>
    hbefore k' hk' k List.mem_cons_self c hin hc
  have hright := hother after (fun k' hk' => by simp [hk']) fun k' hk' hin =>
    (List.pairwise_cons.1 hafter).1 k' hk' c hc hin
  rw [List.flatMap_append, List.flatMap_cons, entriesOf_append, entriesOf_append, hleft, hright,
    List.nil_append, List.append_nil]

end Entries

theorem call_of_mem_own {deferred : Bool} {site : CallSite} (h : site ∈ own deferred n) :
    site.call = n := by
  unfold own at h
  split at h
  · obtain ⟨_, -, rfl⟩ := List.mem_map.1 h
    rfl
  · cases h

theorem mem_of_mem_within {deferred : Bool} {site : CallSite} (h : site ∈ within deferred n) :
    site.call ∈ n.preorder := by
  induction n using innerInduction generalizing deferred with
  | step n ih =>
    rw [within_eq_entered] at h
    obtain h | h := List.mem_append.1 h
    · obtain ⟨k, hk, h⟩ := List.mem_flatMap.1 h
      have hin := (enters_of_mem hk).inner
      exact preorder_trans (preorder_of_inner hin) (ih k hin h)
    · rw [call_of_mem_own h]
      exact self_mem_preorder n

theorem entered_subset (n : Node) : entered n ⊆ n.preorder := fun _ hk =>
  preorder_of_inner (enters_of_mem hk).inner

/-- The walk lists the call that it starts from at the end only. -/
theorem entriesOf_within_self (wf : n.WellFormed) (deferred : Bool) :
    entriesOf n (within deferred n) = own deferred n := by
  have hentered :
      entriesOf n ((entered n).flatMap (within (deferred || decide (n.kind = .deferStatement)))) =
        [] :=
    entriesOf_flatMap_eq_nil wf.distinct (entered_subset n) (fun _ _ _ => mem_of_mem_within)
      (self_mem_preorder n) fun k hk hin =>
      not_inner_self (inner_of_preorder (enters_of_mem hk).inner hin)
  rw [within_eq_entered, entriesOf_append, hentered, List.nil_append]
  exact List.filter_eq_self.2 fun site hsite => by rw [call_of_mem_own hsite, beq_self_eq_true]

theorem entriesOf_within_inner (wf : n.WellFormed) (hc : c ∈ n.inner) (deferred : Bool) :
    entriesOf c (within deferred n) =
      entriesOf c
        ((entered n).flatMap (within (deferred || decide (n.kind = .deferStatement)))) := by
  have hown : entriesOf c (own deferred n) = [] := by
    refine entriesOf_eq_nil wf.distinct (preorder_of_inner hc) fun site hsite => ?_
    rw [call_of_mem_own hsite]
    exact ⟨self_mem_preorder n, fun heq => not_inner_self (heq ▸ hc)⟩
  rw [within_eq_entered, entriesOf_append, hown, List.append_nil]

/-- Nothing is above the node that a walk starts from. -/
theorem makes_self_iff : Makes n n ↔ n.kind = .callExpression ∧ ∃ f, n.Calls f ∧
    f.kind ≠ .funcLiteral := by
  have hnone : ∀ m ∈ n.preorder, n ∉ m.inner := fun m hm hin =>
    absurd (inner_of_preorder hin hm) not_inner_self
  refine ⟨fun h => ⟨h.call, h.callee⟩, fun ⟨hkind, hcallee⟩ => ⟨hkind, hcallee, ?_, ?_⟩⟩
  · exact fun m hm hin => absurd hin (hnone m hm)
  · exact fun m hm _ htyped => hnone m hm htyped.inner

theorem own_of_makes {deferred : Bool} (h : Makes n n) : own deferred n = [⟨n, deferred⟩] := by
  obtain ⟨hkind, _, ⟨function, hfunction, rfl⟩, hplain⟩ := makes_self_iff.1 h
  simp [own, hkind, hfunction, hplain, Option.filter_some]

theorem own_of_not_makes {deferred : Bool} (h : ¬ Makes n n) : own deferred n = [] := by
  unfold own
  split
  next hkind =>
    cases hfunction : n.child? .function with
    | none => rfl
    | some function =>
      have hliteral : function.bare.kind = .funcLiteral := by
        by_contra hplain
        exact h (makes_self_iff.2 ⟨hkind, _, ⟨function, hfunction, rfl⟩, hplain⟩)
      simp [hliteral, Option.filter_some]
  next => rfl

/-- The entries of the walk for a call: one if the call is made, else none. -/
theorem entriesOf_within (wf : n.WellFormed) (hc : c ∈ n.preorder) (deferred : Bool) :
    (Makes n c → ∃ mark, entriesOf c (within deferred n) = [⟨c, mark⟩] ∧
      (mark = true ↔ deferred = true ∨ IsDeferred n c)) ∧
    (¬ Makes n c → entriesOf c (within deferred n) = []) := by
  induction n using innerInduction generalizing deferred with
  | step n ih =>
    obtain rfl | hinner := mem_preorder.1 hc
    · rw [entriesOf_within_self wf]
      refine ⟨fun hmakes => ⟨deferred, own_of_makes hmakes, .inl, Or.rec id ?_⟩, own_of_not_makes⟩
      rintro ⟨m, hm, -, hin⟩
      exact absurd (inner_of_preorder hin hm) not_inner_self
    · rw [entriesOf_within_inner wf hinner]
      generalize hflag : (deferred || decide (n.kind = .deferStatement)) = flag
      -- entered nodes have no node in common, so one of them has all entries of the call
      have hone : ∀ k ∈ entered n, c ∈ k.preorder →
          entriesOf c ((entered n).flatMap (within flag)) =
            entriesOf c (within flag k) := fun k hk =>
        entriesOf_flatMap wf.distinct (entered_subset n) (fun _ _ _ => mem_of_mem_within)
          (pairwise_apart_entered wf) hk
      refine ⟨fun hmakes => ?_, fun hmakes => ?_⟩
      · obtain ⟨k, hk, hin⟩ := hmakes.exists_entered wf hinner
        obtain ⟨mark, hentries, hmark⟩ :=
          (ih k (enters_of_mem hk).inner (wf.of_mem (entered_subset n hk)) hin flag).1
            (hmakes.entered wf hk)
        refine ⟨mark, (hone k hk hin).trans hentries, hmark.trans ?_⟩
        rw [isDeferred_iff wf hk hin, ← hflag]
        simp [or_assoc]
      · by_cases hheld : ∃ k ∈ entered n, c ∈ k.preorder
        · obtain ⟨k, hk, hin⟩ := hheld
          rw [hone k hk hin]
          exact (ih k (enters_of_mem hk).inner (wf.of_mem (entered_subset n hk)) hin flag).2
            fun hmade => hmakes (hmade.of_entered wf hk hin)
        · exact entriesOf_flatMap_eq_nil wf.distinct (entered_subset n)
            (fun _ _ _ => mem_of_mem_within) hc fun k hk hin => hheld ⟨k, hk, hin⟩

/-- The calls of a body are those that it makes, each once, and marked when a `defer` statement is
above. -/
theorem ofBody_exact {body : Node} (wf : body.WellFormed) :
    (∀ c ∈ body.preorder, Makes body c → ∃ mark, entriesOf c (ofBody body) = [⟨c, mark⟩] ∧
      (mark = true ↔ IsDeferred body c)) ∧
    ∀ site ∈ ofBody body, site.call ∈ body.preorder ∧ Makes body site.call := by
  refine ⟨fun c hc hmakes => ?_, fun site hsite => ?_⟩
  · obtain ⟨mark, hentries, hmark⟩ := (entriesOf_within wf hc false).1 hmakes
    exact ⟨mark, hentries, by simpa using hmark⟩
  · have hcall := mem_of_mem_within hsite
    refine ⟨hcall, by_contra fun hmakes => ?_⟩
    have hnone := List.filter_eq_nil_iff.1 ((entriesOf_within wf hcall false).2 hmakes) site hsite
    simp at hnone

/-- A node that lets everything through: no function literal and no call of one, no `go` statement,
and no block with a `return`. -/
def isOpen (n : Node) : Bool :=
  n.kind != .funcLiteral && n.kind != .goStatement &&
    !(n.kind == .callExpression && calleeIsLiteral n) &&
      !(n.kind == .block && n.parts.any (·.kind == .returnStatement))

/-- An open node lets every part below it through. -/
theorem allows_of_isOpen {body : Node} (wf : n.WellFormed) (h : isOpen n = true) (hc : c ∈ n.inner)
    (hpart : c.isPart = true) : Allows body n c := by
  simp only [isOpen, Bool.and_eq_true, bne_iff_ne, ne_eq, Bool.not_eq_true', Bool.and_eq_false_iff,
    beq_eq_false_iff_ne, List.any_eq_false, beq_iff_eq] at h
  obtain ⟨⟨⟨hliteral, hgo⟩, hcall⟩, hreturn⟩ := h
  refine ⟨fun hkind => ?_, fun hkind => absurd hkind hliteral, fun hkind => absurd hkind hgo, ?_⟩
  · obtain ⟨k, hk, hc⟩ := mem_inner.1 hc
    refine ⟨k, List.mem_filter.2 ⟨hk, (wf.child hk).isPart_of_mem hc hpart⟩, hc, fun t ht => ?_⟩
    exact (hreturn.resolve_left fun h => h hkind) t (ht.subset List.mem_cons_self)
  · rintro hkind f ⟨function, hfunction, rfl⟩ hf
    have hplain := hcall.resolve_left fun h => h hkind
    simp [calleeIsLiteral, hfunction, hf] at hplain

def deferredCall : String :=
  "package p\nfunc run() \x7b\n\tdefer cleanup(arg())\n\tf[[len(a)]int](x)\n\x7d\n"

/-- Whether there is a block that lets everything through, with a call in it, such that the two pass
a test. -/
def opensCall (root : Node) (test : Node → Node → Bool) : Bool :=
  root.preorder.any fun body => body.kind == .block && body.preorder.all isOpen &&
    body.preorder.any fun c => c.kind == .callExpression &&
      (c.child? .function).isSome && test body c

theorem exists_of_opensCall {test : Node → Node → Bool} (wf : root.WellFormed)
    (h : opensCall root test = true) :
    ∃ body c, body ∈ root.preorder ∧ body.kind = .block ∧ c ∈ body.preorder ∧
      c.kind = .callExpression ∧ (∃ f, c.Calls f ∧ f.kind ≠ .funcLiteral) ∧
        (∀ n ∈ body.preorder, c ∈ n.inner → Allows body n c) ∧
      test body c = true := by
  simp only [opensCall, List.any_eq_true, List.all_eq_true, Bool.and_eq_true, beq_iff_eq,
    Option.isSome_iff_exists] at h
  obtain ⟨body, hbody, ⟨hkind, hopen⟩, c, hc, ⟨hcall, function, hfunction⟩, htest⟩ := h
  have hpart : c.isPart = true := by rw [isPart, hcall]; rfl
  refine ⟨body, c, hbody, hkind, hc, hcall, ⟨_, ⟨function, hfunction, rfl⟩, fun hliteral => ?_⟩,
    fun n hn hin => allows_of_isOpen (wf.of_mem (preorder_trans hbody hn))
      (hopen n hn) hin hpart, htest⟩
  have hself := hopen c hc
  simp [isOpen, hcall, calleeIsLiteral, hfunction, hliteral] at hself

set_option maxRecDepth 4000 in
theorem ofBody_exact_deferredCall :
    ∃ body c, body ∈ (parse deferredCall).preorder ∧ body.kind = .block ∧ Makes body c ∧
      entriesOf c (ofBody body) = [⟨c, true⟩] := by
  have hfound : opensCall (parse deferredCall) (fun body c => (body.preorder.all fun n =>
      (n.child? .typeArguments).all fun types => types.preorder.all (·.id != c.id)) &&
      body.preorder.any fun n => n.kind == .deferStatement && n.inner.any
        (·.id == c.id)) = true := by
    decide +kernel
  have wf := parse_wellFormed deferredCall
  obtain ⟨body, c, hbody, hkind, hc, hcall, hcallee, hallowed, htest⟩ :=
    exists_of_opensCall wf hfound
  simp only [Bool.and_eq_true, List.all_eq_true, List.any_eq_true, Option.all_eq_true, bne_iff_ne,
    beq_iff_eq] at htest
  obtain ⟨huntyped, n, hn, hdefer, x, hx, hid⟩ := htest
  have hmakes : Makes body c := ⟨hcall, hcallee, hallowed, fun n hn _ ⟨types, htypes, hin⟩ =>
    huntyped n hn types htypes c hin rfl⟩
  have hdeferred : IsDeferred body c := by
    obtain rfl :=
      wf.distinct.eq_of_id (preorder_trans hbody (preorder_trans hn (preorder_of_inner hx)))
        (preorder_trans hbody hc) hid
    exact ⟨n, hn, hdefer, hx⟩
  obtain ⟨mark, hentries, hmark⟩ := (ofBody_exact (wf.of_mem hbody)).1 c hc hmakes
  rw [hmark.2 hdeferred] at hentries
  exact ⟨body, c, hbody, hkind, hmakes, hentries⟩

set_option maxRecDepth 4000 in
/-- Everything above the call in the type arguments lets it through, and it is not listed. -/
theorem unlisted_call_deferredCall :
    ∃ body c, body ∈ (parse deferredCall).preorder ∧ body.kind = .block ∧ c ∈ body.preorder ∧
      c.kind = .callExpression ∧ (∃ f, c.Calls f ∧ f.kind ≠ .funcLiteral) ∧
      (∀ n ∈ body.preorder, c ∈ n.inner → Allows body n c) ∧
        ∀ site ∈ ofBody body, site.call ≠ c := by
  have hfound :
      opensCall (parse deferredCall)
        (fun body c => (ofBody body).all (·.call.id != c.id)) = true := by
    decide +kernel
  obtain ⟨body, c, hbody, hkind, hc, hcall, hcallee, hallowed, hnone⟩ :=
    exists_of_opensCall (parse_wellFormed deferredCall) hfound
  refine ⟨body, c, hbody, hkind, hc, hcall, hcallee, hallowed, fun site hsite heq => ?_⟩
  simpa [heq] using List.all_eq_true.1 hnone site hsite

end CallSite

end Handoff

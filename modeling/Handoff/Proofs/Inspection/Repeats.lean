import Handoff.Inspection
import Handoff.Proofs.Inspection.Subject
import Handoff.Proofs.Verdict.Repeats

/-!
# Findings in files that repeat one another

Where one file repeats another, a site and its counterpart lie in token scopes with the same names,
spawn counterparts through the same spawner and are judged alike. So the same findings are made
about them, each at counterparts.

## Main definitions

* `Finding.Alike`: findings that say the same about counterparts.
* `Inspection.Repeats`: inspections of two files, one of which repeats the other, under the same
  settings.

## Main statement

* `Inspection.Repeats.siteFindings`: what is found at a node is found at its counterpart.
-/

namespace Handoff

open Syntax Node

structure Finding.Alike (N : Node → Node → Prop) (f f' : Finding) : Prop where
  checker : f'.checker = f.checker
  message : f'.message = f.message
  span : ∃ n n', N n n' ∧ f.span = n.span ∧ f'.span = n'.span

structure Callback.Alike (N : Node → Node → Prop) (c c' : Callback) : Prop where
  expr : N c.expr c'.expr
  ordinal : c'.ordinal = c.ordinal
  spread : c'.spread = c.spread

/-- Sites of one spawner, their callbacks counterparts. -/
structure SpawnSite.Alike (N : Node → Node → Prop) (s s' : SpawnSite) : Prop where
  spawner : s'.spawner = s.spawner
  callbacks : List.Forall₂ (Callback.Alike N) s.callbacks s'.callbacks

structure TokenScope.Alike (N : Node → Node → Prop) (s s' : TokenScope) : Prop where
  owner : N s.owner s'.owner
  names : s'.names = s.names

/-! ### Callbacks -/

namespace Spawner

variable {N : Node → Node → Prop} {n n' : Node} {as as' ds ds' : List Node}

theorem spreadInner_replica (L : Replica N) (h : N n n') : N (spreadInner n) (spreadInner n') := by
  unfold spreadInner
  rw [L.kind h]
  split
  · obtain ⟨hp, hp'⟩ | ⟨p, p', hp, hp', hN⟩ := rel_cases (rel_head? (L.parts h))
    · simpa [hp, hp'] using h
    · simpa [hp, hp'] using hN
  · exact h

theorem fixedCallbacks_replica (L : Replica N) (s : Spawner) (h : List.Forall₂ N as as') :
    List.Forall₂ (Callback.Alike N) (s.fixedCallbacks as) (s.fixedCallbacks as') := by
  unfold fixedCallbacks
  induction s.callbacks with
  | nil => exact .nil
  | cons i is ih =>
    rw [List.filterMap_cons, List.filterMap_cons]
    obtain ⟨ha, ha'⟩ | ⟨a, a', ha, ha', hN⟩ := rel_cases (rel_getElem? h i)
    · simpa [ha, ha'] using ih
    · rw [ha, ha']
      exact .cons ⟨spreadInner_replica L hN, rfl, rfl⟩ ih

theorem variadicCallbacks_replica (L : Replica N) (first : Nat) (h : List.Forall₂ N as as') :
    List.Forall₂ (Callback.Alike N) (variadicCallbacks first as) (variadicCallbacks first as') := by
  unfold variadicCallbacks
  have hrest := List.forall₂_drop first h
  have hlast : Option.Rel N (as.drop first).getLast? (as'.drop first).getLast? := by
    rw [List.getLast?_eq_head?_reverse, List.getLast?_eq_head?_reverse]
    exact rel_head? (List.rel_reverse hrest)
  dsimp only
  obtain ⟨hl, hl'⟩ | ⟨l, l', hl, hl', hN⟩ := rel_cases hlast
  · rw [hl, hl']
    exact .nil
  · rw [hl, hl']
    dsimp only
    rw [L.kind hN]
    split
    · exact .cons ⟨spreadInner_replica L hN, rfl, rfl⟩ .nil
    · exact List.rel_map (fun a a' ha => ⟨ha.1, by rw [ha.2], rfl⟩) (rel_zipIdx hrest 0)

/-- Counterparts of a call have counterparts as callbacks. -/
theorem callbacksOf_replica (L : Replica N) (s : Spawner) (h : N n n') :
    List.Forall₂ (Callback.Alike N) (s.callbacksOf n) (s.callbacksOf n') := by
  have harguments := L.arguments h
  refine List.rel_append (fixedCallbacks_replica L s harguments) ?_
  split
  · exact variadicCallbacks_replica L _ harguments
  · exact .nil

theorem mem_preorder_of_mem_callbacksOf {s : Spawner} {callback : Callback}
    (h : callback ∈ s.callbacksOf n) : callback.expr ∈ n.preorder := by
  obtain ⟨argument, hargument, heq | heq⟩ := exists_argument_of_mem_callbacksOf h
  · exact heq ▸ Search.arguments_subset hargument
  · obtain hself | ⟨-, hinner⟩ := spreadInner_cases argument
    · exact heq ▸ hself.symm ▸ Search.arguments_subset hargument
    · exact preorder_trans (Search.arguments_subset hargument) (heq ▸ Search.parts_subset hinner)

theorem parameterCount_replica (L : Replica N) (h : N n n') :
    n'.parameterCount = n.parameterCount := by
  rw [parameterCount, parameterCount, (L.inField .name h).length_eq]

theorem isFunctionTyped_replica (L : Replica N) (h : N n n') : isFunctionTyped n' =
    isFunctionTyped n := by
  unfold isFunctionTyped
  obtain ⟨hc, hc'⟩ | ⟨type, type', hc, hc', htype⟩ := rel_cases (L.likeness.child? h .type)
  · simp [hc, hc']
  · simp [hc, hc', L.kind htype]

theorem withPositions_replica (L : Replica N) (h : List.Forall₂ N ds ds') (next : Nat) :
    List.Forall₂ (fun p p' => N p.1 p'.1 ∧ p'.2 = p.2) (withPositions next ds)
      (withPositions next ds') := by
  induction h generalizing next with
  | nil => exact .nil
  | cons hd _ ih =>
    rw [withPositions, withPositions, parameterCount_replica L hd]
    exact .cons ⟨hd, rfl⟩ (ih _)

/-- Marked functions that are counterparts are the same spawner. -/
theorem ofDeclaration_replica (L : Replica N) (h : N n n') :
    ofDeclaration n' = ofDeclaration n := by
  unfold ofDeclaration
  obtain ⟨hn, hn'⟩ | ⟨name, name', hn, hn', hname⟩ := rel_cases (L.likeness.child? h .name)
  · simp [hn, hn']
  obtain ⟨hl, hl'⟩ | ⟨list, list', hl, hl', hlist⟩ := rel_cases (L.likeness.child? h .parameters)
  · simp [hn, hn', hl, hl']
  have htyped := List.rel_filter (p := fun d : Node × Nat => isFunctionTyped d.1)
    (q := fun d : Node × Nat => isFunctionTyped d.1)
    (fun d d' hd => by simp [isFunctionTyped_replica L hd.1])
    (withPositions_replica L (L.parts hlist) 0)
  simp only [hn, hn', hl, hl', bind, Option.bind, L.text hname]
  generalize (withPositions 0 list.parts).filter (fun d => isFunctionTyped d.1) = typed,
    (withPositions 0 list'.parts).filter (fun d => isFunctionTyped d.1) = typed' at htyped
  have hfilter (p : Kind → Bool) : List.Forall₂ (fun d d' => N d.1 d'.1 ∧ d'.2 = d.2)
      (typed.filter fun d => p d.1.kind) (typed'.filter fun d => p d.1.kind) :=
    List.rel_filter (fun d d' hd => by simp [L.kind hd.1]) htyped
  have hfixed : (typed'.filter fun d => !d.1.kind == .variadicParameterDeclaration).flatMap
        (fun d => List.range' d.2 d.1.parameterCount) =
      (typed.filter fun d => !d.1.kind == .variadicParameterDeclaration).flatMap
        fun d => List.range' d.2 d.1.parameterCount := by
    rw [List.flatMap, List.flatMap]
    refine congrArg List.flatten
      (map_eq_of_rel (hfilter fun k => !k == .variadicParameterDeclaration) ?_)
    intro d d' _ hd
    rw [hd.2, parameterCount_replica L hd.1]
  have hspread : (typed'.filter fun d => d.1.kind == .variadicParameterDeclaration).getLast?.map
      Prod.snd =
        (typed.filter fun d => d.1.kind == .variadicParameterDeclaration).getLast?.map
          Prod.snd := by
    rw [← List.getLast?_map, ← List.getLast?_map,
      map_eq_of_rel (hfilter (· == .variadicParameterDeclaration)) fun _ _ _ hd => hd.2]
  rw [hfixed, hspread]

end Spawner

namespace Resolution.Repeats

variable {root root' : Node} {M : Correspondence root root'} {readAt : Node → Node → Prop}
  {r r' : Resolution} {n n' : Node}

/-- Counterparts of a call are sites of the same spawner, if the same spawner is known by the
callees. -/
theorem ofCall (h : r.Repeats M readAt r') {spawners spawners' : List Spawner} (hN : M.node n n')
    (hfind : ∀ {callee callee'}, M.node callee callee' → n.child? .function = some callee →
      spawners'.find? (·.isCallee r' callee'.bare) = spawners.find? (·.isCallee r callee.bare)) :
    Option.Rel (SpawnSite.Alike M.node) (SpawnSite.ofCall spawners r n)
      (SpawnSite.ofCall spawners' r' n') := by
  unfold SpawnSite.ofCall
  obtain ⟨hc, hc'⟩ | ⟨callee, callee', hc, hc', hcallee⟩ :=
    rel_cases (h.replica.likeness.child? hN .function)
  · simp [hc, hc']
  simp only [hc, hc', bind, Option.bind, hfind hcallee hc]
  cases spawners.find? (·.isCallee r callee.bare) with
  | none => exact .none
  | some spawner => exact .some ⟨rfl, Spawner.callbacksOf_replica h.replica spawner hN⟩

/-- Counterparts belong to token scopes of counterparts. -/
theorem around (h : r.Repeats M readAt r') (carriers : Carriers) (hN : M.node n n') :
    Option.Rel (TokenScope.Alike M.node) (TokenScope.around r.root r.imports carriers n)
      (TokenScope.around r'.root r'.imports carriers n') := by
  rw [h.root_eq, h.root_eq', h.imports]
  refine rel_findSome? (.cons (.inl hN) (h.ancestors hN)) fun a a' ha => ?_
  obtain ha | ⟨hkind, hkind'⟩ := ha
  · exact rel_mono (TokenScope.ofNode_like M.like r.imports carriers ha) fun _ _ hs => ⟨hs.1, hs.2⟩
  · simp [TokenScope.ofNode, hkind, hkind']

end Resolution.Repeats

namespace Inspection

/-- Only sites give findings. -/
theorem findings_eq (i : Inspection) :
    i.findings = (i.resolution.root.preorder.filter isSite).flatMap i.siteFindings :=
  (flatMap_filter_of_nil fun n _ hsite => by simp [siteFindings, hsite]).symm

variable {root root' : Node}

/-- Inspections of two files, one of which repeats the other, under the same settings. -/
structure Repeats (M : Correspondence root root') (readAt : Node → Node → Prop)
    (i i' : Inspection) : Prop where
  resolution : i.resolution.Repeats M readAt i'.resolution
  settings : i'.settings = i.settings
  /-- The same spawner is known by a callee and its counterpart. -/
  spawners {call call' callee callee' : Node} : M.node call call' → call.kind = .callExpression →
    M.node callee callee' → call.child? .function = some callee →
    i'.spawners.find? (·.isCallee i'.resolution callee'.bare) =
      i.spawners.find? (·.isCallee i.resolution callee.bare)
  graph : i.graph = none ∧ i'.graph = none ∨
    i.graph = CaptureGraph.build i.resolution ∧ i'.graph = CaptureGraph.build i'.resolution

namespace Repeats

variable {M : Correspondence root root'} {readAt : Node → Node → Prop} {i i' : Inspection}
  {n n' expr expr' site site' call call' : Node} {contexts : List String}
    {requirement : Requirement}

theorem trace (h : i.Repeats M readAt i') (hexpr : M.node expr expr') :
    i'.trace expr' = i.trace expr := by
  unfold Inspection.trace
  rw [h.settings]
  obtain ⟨hg, hg'⟩ | ⟨hg, hg'⟩ := h.graph
  · rw [hg, hg']
    rfl
  · rw [hg, hg', h.resolution.traceCapture _ hexpr]

theorem traceOutcome (h : i.Repeats M readAt i') (requirement : Requirement)
    (hexpr : M.node expr expr') :
    traceOutcome i'.graph i'.resolution requirement expr' =
      traceOutcome i.graph i.resolution requirement expr := by
  obtain ⟨hg, hg'⟩ | ⟨hg, hg'⟩ := h.graph
  · rw [hg, hg']
    rfl
  · rw [hg, hg', h.resolution.traceOutcome _ hexpr]

/-! ### Searches -/

variable {V : Type} [Verdict V] {test test' : ClosureTest V}

theorem closure (h : i.Repeats M readAt i') (htest : ClosureTest.Agrees M test test')
    (hexpr : M.node expr expr') (hsite : M.node site site') (hin : readAt expr site) :
    Search.closure i'.resolution test' expr' site' = Search.closure i.resolution test expr site :=
  h.resolution.search htest _ _ hexpr hsite hin .nil

theorem callback (h : i.Repeats M readAt i') (htest : ClosureTest.Agrees M test test')
    (spawner : Spawner) {c c' : Callback} (hc : Callback.Alike M.node c c')
    (hcall : M.node call call') (hin : readAt c.expr call) :
    Search.callback i'.resolution test' spawner c' call' =
      Search.callback i.resolution test spawner c call := by
  unfold Search.callback
  rw [hc.spread]
  exact h.resolution.search htest _ _ hc.expr hcall hin .nil

theorem goUsesToken (h : i.Repeats M readAt i') (hexpr : M.node expr expr')
    (hsite : M.node site site') (hin : readAt expr site) : i'.goUsesToken expr' site' =
      i.goUsesToken expr site := by
  unfold Inspection.goUsesToken
  rw [h.trace hexpr, h.settings, h.closure (h.resolution.captureTest_agrees _) hexpr hsite hin]

theorem goOutcome (h : i.Repeats M readAt i') (requirement : Requirement)
    (hexpr : M.node expr expr') (hsite : M.node site site') (hin : readAt expr site) :
    i'.goOutcome requirement expr' site' = i.goOutcome requirement expr site := by
  unfold Inspection.goOutcome
  rw [h.traceOutcome requirement hexpr,
    h.closure (h.resolution.outcomeTest_agrees requirement) hexpr hsite hin]

variable {s s' : SpawnSite} {c c' : Callback}

theorem callbackUsesToken (h : i.Repeats M readAt i') (hs : SpawnSite.Alike M.node s s')
    (hc : Callback.Alike M.node c c') (hcall : M.node call call') (hin : readAt c.expr call) :
    i'.callbackUsesToken s' c' call' = i.callbackUsesToken s c call := by
  unfold Inspection.callbackUsesToken isPlain
  rw [h.trace hc.expr, h.settings, hs.spawner, hc.spread,
    h.callback (h.resolution.captureTest_agrees _) s.spawner hc hcall hin]

theorem callbackOutcome (h : i.Repeats M readAt i') (requirement : Requirement)
    (hs : SpawnSite.Alike M.node s s') (hc : Callback.Alike M.node c c') (hcall : M.node call call')
    (hin : readAt c.expr call) :
    i'.callbackOutcome requirement s' c' call' = i.callbackOutcome requirement s c call := by
  unfold Inspection.callbackOutcome isPlain
  rw [h.traceOutcome requirement hc.expr, hs.spawner, hc.spread,
    h.callback (h.resolution.outcomeTest_agrees requirement) s.spawner hc hcall hin]

/-! ### Findings -/

theorem outcomeFinding {N : Node → Node → Prop} (requirement : Requirement) (place : String)
    (outcome : Outcome) (hN : N n n') :
    List.Forall₂ (Finding.Alike N) (outcomeFinding requirement n place outcome)
      (outcomeFinding requirement n' place outcome) := by
  cases outcome with
  | atStart => exact .nil
  | deferred | missing => exact .cons ⟨rfl, rfl, n, n', hN, rfl, rfl⟩ .nil

/-- The call and the callee of a `go` statement have counterparts in a repeated file. -/
theorem spawnedCall (L : Replica M.node) (hN : M.node n n') :
    Option.Rel (fun p p' => M.node p.1 p'.1 ∧ M.node p.2 p'.2 ∧ p.2 ∈ n.preorder) (spawnedCall n)
      (spawnedCall n') := by
  unfold Inspection.spawnedCall
  obtain ⟨hp, hp'⟩ | ⟨p, p', hp, hp', hcall⟩ := rel_cases (rel_head? (L.parts hN))
  · simp [hp, hp']
  simp only [hp, hp', bind, Option.bind, L.kind hcall]
  split
  · obtain ⟨hc, hc'⟩ | ⟨callee, callee', hc, hc', hcallee⟩ :=
      rel_cases (L.likeness.child? hcall .function)
    · simp [hc, hc']
    · rw [hc, hc']
      exact .some ⟨hcall, hcallee,
        preorder_trans (Search.parts_subset (List.mem_of_mem_head? hp)) (preorder_of_child? hc)⟩
  · exact .none

theorem goFindings (h : i.Repeats M readAt i') (contexts : List String) (hN : M.node n n') :
    List.Forall₂ (Finding.Alike M.node) (i.goFindings contexts n) (i'.goFindings contexts n') := by
  unfold Inspection.goFindings
  obtain ⟨hs, hs'⟩ | ⟨⟨call, callee⟩, ⟨call', callee'⟩, hs, hs', hcall, hcallee, hin⟩ :=
    rel_cases (spawnedCall h.resolution.replica hN)
  · rw [hs, hs']
    exact .nil
  have hpasses : call'.arguments.any i'.passesToken = call.arguments.any i.passesToken := by
    change call'.arguments.any (mentionsToken i'.resolution i'.settings.carriers true) = _
    rw [h.settings]
    exact h.resolution.any_mentionsToken i.settings.carriers hcall
  rw [hs, hs']
  dsimp only
  have hread := h.resolution.reading.of_mem hin
  rw [hpasses, h.goUsesToken hcallee hN hread, h.settings]
  refine List.rel_append ?_ ?_
  · split
    · exact .cons ⟨rfl, rfl, n, n', hN, rfl, rfl⟩ .nil
    · exact .nil
  · split
    · rw [h.goOutcome _ hcallee hN hread]
      exact outcomeFinding _ _ _ hN
    · exact .nil

theorem callbackFindings (h : i.Repeats M readAt i') (contexts : List String)
    (hs : SpawnSite.Alike M.node s s') (hc : Callback.Alike M.node c c') (hcall : M.node call call')
    (hin : readAt c.expr call) :
    List.Forall₂ (Finding.Alike M.node) (i.callbackFindings contexts s call c)
      (i'.callbackFindings contexts s' call' c') := by
  unfold Inspection.callbackFindings
  dsimp only
  rw [h.callbackUsesToken hs hc hcall hin, h.settings, hs.spawner, hc.ordinal]
  refine List.rel_append ?_ ?_
  · split
    · exact .cons ⟨rfl, rfl, _, _, hc.expr, rfl, rfl⟩ .nil
    · exact .nil
  · split
    · rw [h.callbackOutcome _ hs hc hcall hin]
      exact outcomeFinding _ _ _ hc.expr
    · exact .nil

theorem callFindings (h : i.Repeats M readAt i') (contexts : List String) (hN : M.node n n')
    (hkind : n.kind = .callExpression) :
    List.Forall₂ (Finding.Alike M.node) (i.callFindings contexts n)
      (i'.callFindings contexts n') := by
  unfold Inspection.callFindings
  obtain ⟨hs, hs'⟩ | ⟨s, s', hs, hs', hsite⟩ :=
    rel_cases (h.resolution.ofCall hN (h.spawners hN hkind))
  · rw [hs, hs']
    exact .nil
  · rw [hs, hs']
    refine rel_flatMap_of_mem hsite.callbacks fun c c' hmem hc =>
      h.callbackFindings contexts hsite hc hN ?_
    rw [(SpawnSite.spawner_of_ofCall hs).2] at hmem
    exact h.resolution.reading.of_mem (Spawner.mem_preorder_of_mem_callbacksOf hmem)

/-- What is found at a node is found at its counterpart. -/
theorem siteFindings (h : i.Repeats M readAt i') (hN : M.node n n') :
    List.Forall₂ (Finding.Alike M.node) (i.siteFindings n) (i'.siteFindings n') := by
  unfold Inspection.siteFindings isSite
  rw [h.resolution.replica.kind hN, h.settings]
  dsimp only
  split
  next hsite =>
    obtain ⟨hs, hs'⟩ | ⟨scope, scope', hs, hs', hscope⟩ :=
      rel_cases (h.resolution.around i.settings.carriers hN)
    · rw [hs, hs']
      exact .nil
    · rw [hs, hs']
      dsimp only
      rw [hscope.names]
      split
      · exact h.goFindings _ hN
      next hgo => exact h.callFindings _ hN (by simpa [hgo] using hsite)
  · exact .nil

end Repeats

end Inspection

end Handoff

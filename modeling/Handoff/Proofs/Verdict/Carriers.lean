import Handoff.Proofs.Verdict.Literal
import Handoff.Proofs.Verdict.Parametric

/-!
# More types that carry a context

Configuring another type as a carrier makes more values contexts and takes none away. Every question
about contexts is monotone in the configured types, question by question: the declared parameters,
the variables, the fields, the mentions, the captures of the graph, and the search, whose test
passes more functions and stops earlier at the arguments of a factory call.

## Main statements

* `passes_of_subset`: what passes under some carriers passes under more of them.
-/

namespace Handoff

open Syntax Node

variable {r : Resolution} {smaller larger : Carriers}

theorem Carriers.isToken_of_subset (h : smaller ⊆ larger) {t : TypeName}
    (ht : smaller.isToken t = true) : larger.isToken t = true := by
  unfold Carriers.isToken at *
  obtain hcontext | hcarrier := Bool.or_eq_true_iff.1 ht
  · exact Bool.or_eq_true_iff.2 (.inl hcontext)
  · obtain ⟨carrier, hmem, hnamed⟩ := List.any_eq_true.1 hcarrier
    exact Bool.or_eq_true_iff.2 (.inr (List.any_eq_true.2 ⟨carrier, h hmem, hnamed⟩))

theorem any_isToken_of_subset (h : smaller ⊆ larger) {t : Option TypeName}
    (ht : t.any (Carriers.isToken smaller) = true) : t.any (Carriers.isToken larger) = true := by
  obtain ⟨t, rfl, ht⟩ := Option.any_eq_true _ _ |>.1 ht
  exact Carriers.isToken_of_subset h ht

/-! ### Declarations and variables -/

theorem tokenParameters_subset (imports : Imports) (h : smaller ⊆ larger) (f : Node) :
    tokenParameters imports smaller f ⊆ tokenParameters imports larger f := by
  unfold tokenParameters
  split
  · exact List.Subset.refl _
  · intro name hname
    obtain ⟨d, hd, hname⟩ := List.mem_flatMap.1 hname
    refine List.mem_flatMap.2 ⟨d, hd, ?_⟩
    split at hname
    next htoken => rwa [if_pos (any_isToken_of_subset h htoken)]
    next => cases hname

theorem declaresToken_of_subset {imports : Imports} (h : smaller ⊆ larger) {f : Node}
    (hf : declaresToken imports smaller f = true) : declaresToken imports larger f = true := by
  obtain ⟨name, hname, hsome⟩ := List.any_eq_true.1 hf
  exact List.any_eq_true.2 ⟨name, tokenParameters_subset imports h f hname, hsome⟩

namespace Resolution

theorem isSource_of_subset (h : smaller ⊆ larger) {i : Nat} (hi : r.isSource smaller i = true) :
    r.isSource larger i = true := by
  unfold isSource at *
  split at hi
  · exact hi
  · split at hi
    · exact Carriers.isToken_of_subset h hi
    · exact hi

/-- The copies do not depend on the carriers, only what they are copies of does. -/
theorem mayHoldToken_of_subset (h : smaller ⊆ larger) {i : Nat}
    (hi : r.mayHoldToken smaller i = true) : r.mayHoldToken larger i = true := by
  obtain ⟨j, hj, hsource⟩ := List.any_eq_true.1 hi
  exact List.any_eq_true.2 ⟨j, hj, isSource_of_subset h hsource⟩

theorem isTokenField_of_subset (h : smaller ⊆ larger) {n : Node}
    (hn : r.isTokenField smaller n = true) : r.isTokenField larger n = true := by
  obtain ⟨hkind, htype⟩ := Bool.and_eq_true_iff.1 hn
  exact Bool.and_eq_true_iff.2 ⟨hkind, any_isToken_of_subset h htype⟩

end Resolution

/-! ### Mentions -/

theorem isTokenName_of_subset (h : smaller ⊆ larger) {node ident : Node}
    (hident : isTokenName r smaller node ident = true) :
    isTokenName r larger node ident = true := by
  unfold isTokenName at *
  split at hident
  · exact hident
  · split at hident
    · exact Carriers.isToken_of_subset h hident
    · obtain ⟨hout, hhold⟩ := Bool.and_eq_true_iff.1 hident
      exact Bool.and_eq_true_iff.2 ⟨hout, Resolution.mayHoldToken_of_subset h hhold⟩

/-- With more carriers, whatever was mentioned still is. -/
theorem mentionsBelow_of_subset (h : smaller ⊆ larger) {node : Node} {intoLiterals : Bool}
    (n : Node) (hn : mentionsBelow r smaller node intoLiterals n = true) :
    mentionsBelow r larger node intoLiterals n = true := by
  induction n using childrenInduction with
  | step n ih =>
    obtain ⟨label, children⟩ := n
    rw [mentionsBelow] at *
    split
    next hident => exact isTokenName_of_subset h (by rwa [if_pos hident] at hn)
    next hident =>
      rw [if_neg hident, Bool.or_eq_true_iff, Bool.and_eq_true_iff, mentionsAmong_eq_any] at hn
      rw [Bool.or_eq_true_iff, Bool.and_eq_true_iff, mentionsAmong_eq_any]
      refine hn.imp (Resolution.isTokenField_of_subset h) (And.imp_right fun hbelow => ?_)
      obtain ⟨c, hc, hmentions⟩ := List.any_eq_true.1 hbelow
      obtain ⟨hpart, hmentions⟩ := Bool.and_eq_true_iff.1 hmentions
      exact List.any_eq_true.2 ⟨c, hc, Bool.and_eq_true_iff.2 ⟨hpart, ih c hc hmentions⟩⟩

theorem mentionsToken_of_subset (h : smaller ⊆ larger) {intoLiterals : Bool} {n : Node}
    (hn : mentionsToken r smaller intoLiterals n = true) :
    mentionsToken r larger intoLiterals n = true :=
  mentionsBelow_of_subset h n hn

/-! ### Verdicts -/

def PassesWith (a b : Bool) : Prop := a = true → b = true

theorem respects_passesWith : Verdict.Respects PassesWith where
  assumed := id
  both ha hb h := by
    obtain ⟨h, h'⟩ := Bool.and_eq_true_iff.1 h
    exact Bool.and_eq_true_iff.2 ⟨ha h, hb h'⟩
  either ha hb h := Bool.or_eq_true_iff.2 ((Bool.or_eq_true_iff.1 h).imp ha hb)

/-- With more carriers, every test passes that did. -/
theorem related_captureTest (r : Resolution) (h : smaller ⊆ larger) :
    ClosureTest.Related PassesWith (captureTest r smaller) (captureTest r larger) where
  function f hf := by
    refine Bool.or_eq_true_iff.2
      ((Bool.or_eq_true_iff.1 hf).imp (declaresToken_of_subset h) fun hbody => ?_)
    split at hbody
    · exact mentionsToken_of_subset h hbody
    · rfl
  factoryArguments call := by
    dsimp only [captureTest]
    by_cases hlarger : call.arguments.any (mentionsToken r larger true) = true
    · exact .inr ⟨true, if_pos hlarger, fun _ _ => rfl⟩
    · -- what the larger set does not find in the arguments, the smaller one does not find either
      have hsmaller : ¬ call.arguments.any (mentionsToken r smaller true) = true := fun hany => by
        obtain ⟨argument, hmem, hmentions⟩ := List.any_eq_true.1 hany
        exact hlarger (List.any_eq_true.2 ⟨argument, hmem, mentionsToken_of_subset h hmentions⟩)
      rw [if_neg hlarger, if_neg hsmaller]
      exact .inl .none

theorem FunctionUnit.usesToken_of_subset {unit : FunctionUnit} (h : smaller ⊆ larger)
    (hunit : unit.usesToken r smaller = true) : unit.usesToken r larger = true := by
  unfold FunctionUnit.usesToken at *
  simp only [Bool.or_eq_true_iff, List.any_eq_true] at *
  obtain (hdeclares | ⟨i, hi, hhold⟩) | ⟨n, hn, hfield⟩ := hunit
  · exact .inl (.inl (declaresToken_of_subset h hdeclares))
  · exact .inl (.inr ⟨i, hi, Resolution.mayHoldToken_of_subset h hhold⟩)
  · exact .inr ⟨n, hn, Resolution.isTokenField_of_subset h hfield⟩

theorem traceCapture_of_subset {g : Option CaptureGraph} {expr : Node} (h : smaller ⊆ larger)
    (hexpr : traceCapture g r smaller expr = .satisfied) : traceCapture g r larger expr =
      .satisfied := by
  unfold traceCapture at *
  split at hexpr
  · cases hexpr
  · split at hexpr
    next huses => rw [if_pos (FunctionUnit.usesToken_of_subset h huses)]
    next => cases hexpr

/-- What passes under some carriers passes under more of them: whatever declares, may hold, reads or
mentions a context, every closure and callback that the search accepts, and every closure that the
graph does. -/
theorem passes_of_subset (r : Resolution) (smaller larger : Carriers) (h : smaller ⊆ larger) :
    (∀ f, declaresToken r.imports smaller f = true → declaresToken r.imports larger f = true) ∧
    (∀ i, r.mayHoldToken smaller i = true → r.mayHoldToken larger i = true) ∧
    (∀ n, r.isTokenField smaller n = true → r.isTokenField larger n = true) ∧
    (∀ intoLiterals n, mentionsToken r smaller intoLiterals n = true →
      mentionsToken r larger intoLiterals n = true) ∧
    (∀ expr site, Search.closure r (captureTest r smaller) expr site = true →
      Search.closure r (captureTest r larger) expr site = true) ∧
    (∀ spawner callback call, Search.callback r (captureTest r smaller) spawner callback call =
      true → Search.callback r (captureTest r larger) spawner callback call = true) ∧
    ∀ g expr, traceCapture g r smaller expr = .satisfied →
      traceCapture g r larger expr = .satisfied := by
  have hsearch := Search.search_related (r := r) respects_passesWith
    (related_captureTest r h) Search.maxDepth
  exact ⟨fun _ => declaresToken_of_subset h, fun _ => Resolution.mayHoldToken_of_subset h,
    fun _ => Resolution.isTokenField_of_subset h, fun _ _ => mentionsToken_of_subset h,
    fun expr site => hsearch .closure expr site [], fun _ callback call =>
      hsearch _ callback.expr call [],
    fun _ _ => traceCapture_of_subset h⟩

def twoCarriers : String :=
  "package p\nfunc run(env Env, job Job) \x7b\n\tgo func() \x7b use(env) \x7d()\n" ++
    "\tgo closer(job)()\n\x7d\nfunc closer(job Job) func() \x7b\n\treturn func() \x7b\x7d\n\x7d\n"

theorem passes_of_subset_twoCarriers :
    let r := Resolution.ofFile (parse twoCarriers)
    let smaller : Carriers := [.bare "Env"]
    let larger : Carriers := [.bare "Job", .bare "Env"]
    smaller ⊆ larger ∧
      (∃ literal ∈ (parse twoCarriers).preorder,
        traceCapture (CaptureGraph.build r) r smaller literal = .satisfied ∧
        traceCapture (CaptureGraph.build r) r larger literal = .satisfied ∧
        Search.closure r (captureTest r smaller) literal literal = true ∧
        Search.closure r (captureTest r larger) literal literal = true) ∧
      ∃ call ∈ (parse twoCarriers).preorder,
        Search.closure r (captureTest r smaller) call call = false ∧
        Search.closure r (captureTest r larger) call call = true := by
  intro r smaller larger
  have hsubset : smaller ⊆ larger := by decide
  obtain ⟨hpasses, hstops⟩ :
      ((parse twoCarriers).preorder.any fun n => n.kind == .funcLiteral &&
        traceCapture (CaptureGraph.build r) r smaller n == .satisfied &&
        Search.closure r (captureTest r smaller) n n) = true ∧
      ((parse twoCarriers).preorder.any fun n =>
        !Search.closure r (captureTest r smaller) n n && Search.closure r
          (captureTest r larger) n n) = true := by
    decide +kernel
  simp only [List.any_eq_true, Bool.and_eq_true, beq_iff_eq, Bool.not_eq_true'] at hpasses hstops
  obtain ⟨literal, hliteral, ⟨-, htrace⟩, hclosure⟩ := hpasses
  obtain ⟨-, -, -, -, hsearch, -, hgraph⟩ := passes_of_subset r smaller larger hsubset
  exact ⟨hsubset,
    ⟨literal, hliteral, htrace, hgraph _ _ htrace, hclosure, hsearch _ _ hclosure⟩, hstops⟩

end Handoff

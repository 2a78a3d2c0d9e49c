import Handoff.Configuration.Overrides
import Handoff.Proofs.Inspection.Extension
import Handoff.Proofs.Inspection.Spread
import Handoff.Proofs.Requirement.Text
import Handoff.Proofs.Resolution.Parameters

/-!
# Calls of marked functions

A marked function of a file is a spawner, and its callbacks are its parameters of function type. The
positions of these are computed from declarations that may have several names or none; a call then
picks its arguments by the positions. Here the two meet: with the parameters laid out one by one, an
argument is a callback if the parameter in its place is, and so is every argument from a variadic
parameter on.

## Main definitions

* `Node.flatParameters`: the declarations of a parameter list, one entry for each parameter.
* `Spawner.callbacksFor`: the callbacks among arguments, by the parameters they are for.
* `Spawner.TakesCallback`: a function has a parameter of function type, without which it is no
  spawner.
* `Resolution.calledFunction?`: the function of the file that a call names.

## Main statements

* `Spawner.exists_ofDeclaration`: the spawner that a declaration is, and the callbacks of its calls.
* `SpawnSite.ofCall_marked`: what a call of a marked function is matched with.
* `SpawnSite.callbacks_ne_declaredTwice`: where two marked functions with callbacks share a name,
  the first one counts.
-/

namespace Handoff

open Syntax Node

/-- The declarations in a parameter list, each as often as it has parameters. -/
def Syntax.Node.flatParameters (list : Node) : List Node :=
  list.parts.flatMap fun d => List.replicate d.parameterCount d

namespace Spawner

def isVariadic (d : Node) : Bool := d.kind == .variadicParameterDeclaration

/-- A parameter that takes one callback. -/
def isFixed (d : Node) : Bool := !isVariadic d && isFunctionTyped d

/-- A parameter that takes any number of callbacks. -/
def isSpread (d : Node) : Bool := isVariadic d && isFunctionTyped d

theorem isFixed_of_isSpread {d : Node} (h : isSpread d = true) : isFixed d = false := by
  rw [isFixed, (Bool.and_eq_true_iff.1 h).1]
  rfl

/-- The callbacks among the arguments of a call: those for parameters that take one callback,
without position, then those at or past a parameter that takes any number of them, with their
positions counted from one. -/
def callbacksFor (parameters arguments : List Node) : List Callback :=
  ((arguments.zipIdx.filter fun e => parameters[e.2]?.any isFixed).map fun e =>
    ⟨e.1, none, false⟩) ++
      (arguments.zipIdx.filter fun e => (parameters.take (e.2 + 1)).any isSpread).map fun e =>
        ⟨e.1, some (e.2 + 1), false⟩

/-! ### Positions -/

section Positions

variable {α β : Type}

theorem zipIdx_replicate (d : α) (count k : Nat) :
    (List.replicate count d).zipIdx k = (List.range' k count).map fun i => (d, i) := by
  induction count generalizing k with
  | zero => rfl
  | succ count ih => rw [List.replicate_succ, List.zipIdx_cons, ih, List.range'_succ, List.map_cons]

/-- The positions that declarations take up are those of their parameters. -/
theorem flatMap_withPositions (q : Node → Bool) (ds : List Node) (k : Nat) :
    ((withPositions k ds).filter fun e => q e.1).flatMap
      (fun e => List.range' e.2 e.1.parameterCount) =
        (((ds.flatMap fun d => List.replicate d.parameterCount d).zipIdx k).filter fun e =>
          q e.1).map Prod.snd := by
  induction ds generalizing k with
  | nil => rfl
  | cons d ds ih =>
    have hself :
        (((List.range' k d.parameterCount).map fun i => (d, i)).filter fun e =>
          q e.1).map Prod.snd =
        if q d then List.range' k d.parameterCount else [] := by
      rw [List.filter_map, List.map_map]
      split
      next hd => simp [Function.comp_def, hd]
      next hd => simp [Function.comp_def, hd]
    rw [withPositions, List.flatMap_cons, List.zipIdx_append, List.length_replicate,
      List.filter_append, List.map_append, zipIdx_replicate, hself, ← ih, List.filter_cons]
    split
    next => rw [List.flatMap_cons]
    next => rw [List.nil_append]

/-- Looking up the positions of some entries of a list in another one. -/
theorem filterMap_positions (q : β → Bool) (ps : List β) (as : List α) (k : Nat) (before : List α)
    (hk : before.length = k) :
    (((ps.zipIdx k).filter fun e => q e.1).map Prod.snd).filterMap (fun i => (before ++ as)[i]?) =
      ((as.zip ps).filter fun e => q e.2).map Prod.fst := by
  induction ps generalizing as k before with
  | nil => simp
  | cons p ps ih =>
    cases as with
    | nil =>
      rw [List.zip_nil_left, List.filter_nil, List.map_nil, List.append_nil]
      refine List.filterMap_eq_nil_iff.2 fun i hi => ?_
      obtain ⟨e, he, rfl⟩ := List.mem_map.1 hi
      have := List.le_snd_of_mem_zipIdx (List.mem_of_mem_filter he)
      exact List.getElem?_eq_none (by omega)
    | cons a as =>
      have hrest := ih as (k + 1) (before ++ [a]) (by simp [hk])
      rw [List.append_assoc, List.singleton_append] at hrest
      rw [List.zipIdx_cons, List.zip_cons_cons, List.filter_cons, List.filter_cons]
      split
      next hp =>
        rw [List.map_cons, List.map_cons, List.filterMap_cons, hrest]
        simp [hk.symm]
      next => exact hrest

/-- The same entries, found from the other list. -/
theorem filter_zipIdx_getElem? (q : β → Bool) (ps : List β) (as : List α) (k : Nat)
    (before : List β) (hk : before.length = k) :
    ((as.zipIdx k).filter fun e => (before ++ ps)[e.2]?.any q).map Prod.fst =
      ((as.zip ps).filter fun e => q e.2).map Prod.fst := by
  induction as generalizing ps k before with
  | nil => simp
  | cons a as ih =>
    cases ps with
    | nil =>
      rw [List.zip_nil_right, List.filter_nil, List.map_nil, List.append_nil, List.map_eq_nil_iff]
      refine List.filter_eq_nil_iff.2 fun e he => ?_
      have := List.le_snd_of_mem_zipIdx he
      rw [List.getElem?_eq_none (by omega)]
      simp
    | cons p ps =>
      have hrest := ih ps (k + 1) (before ++ [p]) (by simp [hk])
      rw [List.append_assoc, List.singleton_append] at hrest
      have hfirst : (before ++ p :: ps)[k]?.any q = q p := by simp [← hk]
      rw [List.zipIdx_cons, List.zip_cons_cons, List.filter_cons, List.filter_cons, hfirst]
      split
      next => rw [List.map_cons, List.map_cons, hrest]
      next => exact hrest

theorem any_take_iff (q : α → Bool) (ps : List α) (i : Nat) :
    (ps.take (i + 1)).any q = true ↔ ∃ j ≤ i, ∃ p, ps[j]? = some p ∧ q p = true := by
  rw [List.any_eq_true]
  constructor
  · rintro ⟨p, hp, hq⟩
    obtain ⟨j, hj⟩ := List.mem_iff_getElem?.1 hp
    rw [List.getElem?_take] at hj
    exact ⟨j, by grind, p, by grind, hq⟩
  · rintro ⟨j, hj, p, hp, hq⟩
    exact ⟨p, List.mem_iff_getElem?.2 ⟨j, by rwa [List.getElem?_take_of_lt (by omega)]⟩, hq⟩

end Positions

/-! ### A variadic parameter -/

section Variadic

def LastVariadic (parameters : List Node) : Prop :=
  ∀ i p, parameters[i]? = some p → isVariadic p = true → i + 1 = parameters.length

instance (parameters : List Node) : Decidable (LastVariadic parameters) :=
  decidable_of_iff (∀ e ∈ parameters.zipIdx, isVariadic e.1 = true → e.2 + 1 = parameters.length)
    ⟨fun h i p hp => h (p, i) (List.mem_zipIdx_iff_getElem?.2 hp),
      fun h e he => h e.2 e.1 (List.mem_zipIdx_iff_getElem?.1 he)⟩

variable {parameters : List Node} (hlast : LastVariadic parameters)
include hlast

theorem position_of_isSpread {i : Nat} {p : Node} (hp : parameters[i]? = some p)
    (hspread : isSpread p = true) : i + 1 = parameters.length :=
  hlast i p hp (Bool.and_eq_true_iff.1 hspread).1

/-- A parameter that takes any number of callbacks has the last position. -/
theorem positions_isSpread : ((parameters.zipIdx).filter fun e => isSpread e.1).map Prod.snd =
    if parameters.any isSpread then [parameters.length - 1] else [] := by
  have hlastPosition : ∀ i ∈ ((parameters.zipIdx).filter fun e => isSpread e.1).map Prod.snd,
      i = parameters.length - 1 := by
    intro i hi
    obtain ⟨e, he, rfl⟩ := List.mem_map.1 hi
    obtain ⟨he, hspread⟩ := List.mem_filter.1 he
    have := position_of_isSpread hlast (List.mem_zipIdx_iff_getElem?.1 he) hspread
    omega
  have hnodup : (((parameters.zipIdx).filter fun e => isSpread e.1).map Prod.snd).Nodup := by
    refine List.Nodup.sublist (List.filter_sublist.map _) ?_
    rw [List.zipIdx_map_snd]
    exact List.nodup_range'
  have hempty : ((parameters.zipIdx).filter fun e => isSpread e.1).map Prod.snd = [] ↔
      parameters.any isSpread = false := by
    rw [List.map_eq_nil_iff, List.filter_eq_nil_iff, List.any_eq_false]
    constructor
    · intro h p hp
      obtain ⟨i, hi⟩ := List.mem_iff_getElem?.1 hp
      exact h (p, i) (List.mem_zipIdx_iff_getElem?.2 hi)
    · exact fun h e he => h e.1 (List.fst_mem_of_mem_zipIdx he)
  -- a list without repetition of which all entries are the same has at most one
  generalize ((parameters.zipIdx).filter fun e => isSpread e.1).map Prod.snd = positions at *
  match positions, hlastPosition, hnodup with
  | [], _, _ => simp [hempty.1 rfl]
  | [i], hlastPosition, _ =>
    have hany : parameters.any isSpread = true := by
      rw [← Bool.not_eq_false, ← hempty]
      simp
    rw [hany, if_pos rfl, hlastPosition i (List.mem_singleton_self i)]
  | i :: j :: rest, hlastPosition, hnodup =>
    have hij : i = j := (hlastPosition i (by simp)).trans (hlastPosition j (by simp)).symm
    simp [hij] at hnodup

/-- The arguments at or past such a parameter. -/
theorem any_take_isSpread (hany : parameters.any isSpread = true) (i : Nat) :
    (parameters.take (i + 1)).any isSpread = decide (parameters.length - 1 ≤ i) := by
  rw [Bool.eq_iff_iff, any_take_iff, decide_eq_true_eq]
  constructor
  · rintro ⟨j, hj, p, hp, hspread⟩
    have := position_of_isSpread hlast hp hspread
    omega
  · intro hi
    obtain ⟨p, hp, hspread⟩ := List.any_eq_true.1 hany
    obtain ⟨j, hj⟩ := List.mem_iff_getElem?.1 hp
    have := position_of_isSpread hlast hj hspread
    exact ⟨j, by omega, p, hj, hspread⟩

end Variadic

/-- The last declaration that takes any number of callbacks. -/
theorem getLast?_withPositions {ds : List Node}
    (hlast : LastVariadic (ds.flatMap fun d => List.replicate d.parameterCount d)) :
    ((withPositions 0 ds).filter fun e => isSpread e.1).getLast?.map Prod.snd =
      if (ds.flatMap fun d => List.replicate d.parameterCount d).any isSpread then
        some ((ds.flatMap fun d => List.replicate d.parameterCount d).length - 1)
      else none := by
  have hpositions := (flatMap_withPositions isSpread ds 0).trans (positions_isSpread hlast)
  -- every declaration stands for one parameter at least
  have hcount : ∀ e : Node × Nat, ∃ rest, List.range' e.2 e.1.parameterCount = e.2 :: rest := by
    intro e
    obtain ⟨count, hcount⟩ : ∃ count, e.1.parameterCount = count + 1 :=
      Nat.exists_eq_succ_of_ne_zero (by unfold parameterCount; omega)
    exact ⟨_, by rw [hcount, List.range'_succ]⟩
  generalize ((withPositions 0 ds).filter fun e => isSpread e.1) = found at *
  match found with
  | [] =>
    split at hpositions
    · cases hpositions
    · simp [*]
  | [e] =>
    obtain ⟨rest, hrest⟩ := hcount e
    rw [List.flatMap_singleton, hrest] at hpositions
    split at hpositions
    next hany =>
      rw [if_pos hany]
      simp [(List.cons.inj hpositions).1]
    next => cases hpositions
  | e :: e' :: found =>
    obtain ⟨rest, hrest⟩ := hcount e
    obtain ⟨rest', hrest'⟩ := hcount e'
    rw [List.flatMap_cons, List.flatMap_cons, hrest, hrest'] at hpositions
    have hlength := congrArg List.length hpositions
    split at hlength <;> simp at hlength

/-! ### The spawner that a declaration is -/

def TakesCallback (d : Node) : Prop :=
  ∃ list, d.child? .parameters = some list ∧ ∃ p ∈ list.flatParameters, isFunctionTyped p = true

section Declaration

variable {d name list call : Node}

theorem fst_of_mem_withPositions {ds : List Node} {k : Nat} {e : Node × Nat}
    (h : e ∈ withPositions k ds) : e.1 ∈ ds := by
  induction ds generalizing k with
  | nil => cases h
  | cons d ds ih =>
    obtain rfl | h := List.mem_cons.1 h
    · exact List.mem_cons_self
    · exact List.mem_cons_of_mem _ (ih h)

theorem mem_flatParameters (h : d ∈ list.parts) : d ∈ list.flatParameters := by
  refine List.mem_flatMap.2 ⟨d, h, List.mem_replicate.2 ⟨?_, rfl⟩⟩
  unfold parameterCount
  omega

/-- A function without a parameter of function type is no spawner. -/
theorem ofDeclaration_eq_none (h : ¬ TakesCallback d) : ofDeclaration d = none := by
  unfold ofDeclaration
  cases d.child? .name with
  | none => rfl
  | some name =>
    cases hlist : d.child? .parameters with
    | none => rfl
    | some list =>
      have htyped : (withPositions 0 list.parts).filter (fun e => isFunctionTyped e.1) = [] := by
        refine List.filter_eq_nil_iff.2 fun e he htyped => h ⟨list, hlist, e.1, ?_, htyped⟩
        exact mem_flatParameters (fst_of_mem_withPositions he)
      dsimp only [bind, Option.bind]
      rw [htyped]
      rfl

/-- The spawner of a declaration by its parameters. -/
theorem ofDeclaration_eq (hname : d.child? .name = some name)
    (hlist : d.child? .parameters = some list) (hlast : LastVariadic list.flatParameters)
    (hany : ∃ p ∈ list.flatParameters, isFunctionTyped p = true) :
    ofDeclaration d = some ⟨.spawner, .bare name.text,
      ((list.flatParameters.zipIdx).filter fun e => isFixed e.1).map Prod.snd,
      if list.flatParameters.any isSpread then some (list.flatParameters.length - 1)
        else none, none⟩ := by
  have hfixed : (((withPositions 0 list.parts).filter fun e => isFunctionTyped e.1).filter fun e =>
      !isVariadic e.1).flatMap (fun e => List.range' e.2 e.1.parameterCount) =
        ((list.flatParameters.zipIdx).filter fun e => isFixed e.1).map Prod.snd := by
    rw [List.filter_filter]
    exact flatMap_withPositions isFixed list.parts 0
  have hspread : (((withPositions 0 list.parts).filter fun e => isFunctionTyped e.1).filter fun e =>
      isVariadic e.1).getLast?.map Prod.snd =
        if list.flatParameters.any isSpread then some (list.flatParameters.length - 1)
          else none := by
    rw [List.filter_filter]
    exact getLast?_withPositions hlast
  -- a parameter of function type is one or the other
  have hfound :
      (List.isEmpty (((list.flatParameters.zipIdx).filter fun e => isFixed e.1).map Prod.snd) &&
        (if list.flatParameters.any isSpread then some (list.flatParameters.length - 1)
          else none).isNone) = false := by
    rw [Bool.and_eq_false_iff, List.isEmpty_eq_false_iff_exists_mem]
    obtain ⟨p, hp, htyped⟩ := hany
    cases hvariadic : isVariadic p with
    | true =>
      have : list.flatParameters.any isSpread = true :=
        List.any_eq_true.2 ⟨p, hp, by rw [isSpread, hvariadic, htyped]; rfl⟩
      simp [this]
    | false =>
      obtain ⟨i, hi⟩ := List.mem_iff_getElem?.1 hp
      exact .inl ⟨i, List.mem_map.2 ⟨(p, i), List.mem_filter.2
        ⟨List.mem_zipIdx_iff_getElem?.2 hi, by rw [isFixed, hvariadic, htyped]; rfl⟩, rfl⟩⟩
  rw [← hfixed, ← hspread] at hfound ⊢
  unfold ofDeclaration
  rw [hname, hlist]
  exact if_neg (ne_of_eq_of_ne hfound Bool.false_ne_true)

end Declaration

/-! ### The callbacks of a call -/

section Callbacks

variable {s : Spawner} {parameters arguments : List Node} {d name list : Node}
  (harguments : ∀ a ∈ arguments, a.kind ≠ .variadicArgument)

include harguments in
/-- The callbacks at fixed positions, by the parameters that the arguments are for. -/
theorem fixedCallbacks_of_positions
    (hs : s.callbacks = ((parameters.zipIdx).filter fun e => isFixed e.1).map Prod.snd) :
    s.fixedCallbacks arguments =
      (arguments.zipIdx.filter fun e => parameters[e.2]?.any isFixed).map fun e =>
        ⟨e.1, none, false⟩ := by
  have hfound : s.callbacks.filterMap (fun i => arguments[i]?) =
      (arguments.zipIdx.filter fun e => parameters[e.2]?.any isFixed).map Prod.fst := by
    have hpositions := filterMap_positions isFixed parameters arguments 0 [] rfl
    have harguments := filter_zipIdx_getElem? isFixed parameters arguments 0 [] rfl
    rw [List.nil_append] at hpositions harguments
    rw [hs, hpositions, harguments]
  rw [fixedCallbacks, hfound, List.map_map]
  refine List.map_congr_left fun e he => ?_
  have hmem : e.1 ∈ arguments := List.fst_mem_of_mem_zipIdx (List.mem_of_mem_filter he)
  rw [Function.comp_apply, spreadInner_eq_self (harguments _ hmem)]

include harguments in
/-- Without a spread argument, all arguments from a position on are callbacks. -/
theorem variadicCallbacks_of_not_spread (first : Nat) : variadicCallbacks first arguments =
    (arguments.zipIdx.filter fun e => decide (first ≤ e.2)).map fun e =>
      ⟨e.1, some (e.2 + 1), false⟩ := by
  by_cases hfirst : first < arguments.length
  · obtain ⟨last, hlast⟩ : ∃ last, arguments.getLast? = some last :=
      ⟨_, List.getLast?_eq_getLast_of_ne_nil (List.ne_nil_of_length_pos (by omega))⟩
    have hbefore : ((arguments.take first).zipIdx.filter fun e => decide (first ≤ e.2)) = [] := by
      refine List.filter_eq_nil_iff.2 fun e he => ?_
      have := List.snd_lt_of_mem_zipIdx he
      grind
    have hbehind : (((arguments.drop first).zipIdx first).filter fun e => decide (first ≤ e.2)) =
        (arguments.drop first).zipIdx first :=
      List.filter_eq_self.2 fun e he => decide_eq_true (List.le_snd_of_mem_zipIdx he)
    have hsplit : arguments.zipIdx = (arguments.take first).zipIdx ++
        (arguments.drop first).zipIdx first := by
      conv => lhs; rw [← List.take_append_drop first arguments, List.zipIdx_append]
      simp [Nat.min_eq_left hfirst.le]
    have hshift : (arguments.drop first).zipIdx first = (arguments.drop first).zipIdx.map fun e =>
        (e.1, first + e.2) :=
      List.zipIdx_eq_map_add
    rw [variadicCallbacks_plain hlast (harguments _ (List.mem_of_getLast? hlast)) hfirst, hsplit,
      List.filter_append, hbefore, List.nil_append, hbehind, hshift, List.map_map]
    rfl
  · have hrest : arguments.drop first = [] := List.drop_eq_nil_of_le (by omega)
    have hnone : (arguments.zipIdx.filter fun e => decide (first ≤ e.2)) = [] := by
      refine List.filter_eq_nil_iff.2 fun e he => ?_
      have := List.snd_lt_of_mem_zipIdx he
      grind
    rw [hnone, variadicCallbacks, hrest]
    rfl

/-- A marked declaration is a spawner, and the callbacks of a call go by its parameters. -/
theorem exists_ofDeclaration (hname : d.child? .name = some name)
    (hlist : d.child? .parameters = some list) (hlast : LastVariadic list.flatParameters)
    (hany : ∃ p ∈ list.flatParameters, isFunctionTyped p = true) :
    ∃ s, ofDeclaration d = some s ∧ s.target = .bare name.text ∧
      ∀ call : Node, (∀ a ∈ call.arguments, a.kind ≠ .variadicArgument) →
        s.callbacksOf call = callbacksFor list.flatParameters call.arguments := by
  refine ⟨_, ofDeclaration_eq hname hlist hlast hany, rfl, fun call harguments => ?_⟩
  unfold callbacksOf callbacksFor
  rw [fixedCallbacks_of_positions harguments rfl]
  cases hspread : list.flatParameters.any isSpread with
  | true =>
    simp only [if_pos, variadicCallbacks_of_not_spread harguments, any_take_isSpread hlast hspread]
  | false =>
    have hnone : ∀ i, (list.flatParameters.take i).any isSpread = false := by
      intro i
      rw [List.any_eq_false] at hspread ⊢
      exact fun p hp => hspread p (List.mem_of_mem_take hp)
    simp [hnone]

/-- No argument is a callback twice. -/
theorem nodup_callbacksFor (hlast : LastVariadic parameters) (hnodup : arguments.Nodup) :
    ((callbacksFor parameters arguments).map Callback.expr).Nodup := by
  have hsublist : ∀ q : Node × Nat → Bool, ((arguments.zipIdx.filter q).map Prod.fst).Nodup := by
    intro q
    have := (List.filter_sublist (l := arguments.zipIdx) (p := q)).map Prod.fst
    rw [List.zipIdx_map_fst] at this
    exact this.nodup hnodup
  unfold callbacksFor
  rw [List.map_append, List.map_map, List.map_map, List.nodup_append]
  refine ⟨hsublist _, hsublist _, ?_⟩
  intro a ha b hb hab
  obtain ⟨⟨a, i⟩, hi, rfl⟩ := List.mem_map.1 ha
  obtain ⟨⟨b, j⟩, hj, rfl⟩ := List.mem_map.1 hb
  obtain ⟨hi, hfixed⟩ := List.mem_filter.1 hi
  obtain ⟨hj, hspread⟩ := List.mem_filter.1 hj
  have hi : arguments[i]? = some a := List.mem_zipIdx_iff_getElem?.1 hi
  have hj : arguments[j]? = some b := List.mem_zipIdx_iff_getElem?.1 hj
  have hab : a = b := hab
  obtain rfl : i = j := (List.getElem?_inj (List.getElem?_eq_some_iff.1 hi).1 hnodup).1
    (by rw [hi, hj, hab])
  -- the parameter for the argument is the last one, and would take both one callback and any number
  obtain ⟨p, hp, htaken⟩ := (Option.any_eq_true _ _).1 hfixed
  obtain ⟨k, hk, p', hp', hspread⟩ := (any_take_iff _ _ _).1 hspread
  have hlength : i < parameters.length := (List.getElem?_eq_some_iff.1 hp).1
  obtain rfl : k = i := by
    have := position_of_isSpread hlast hp' hspread
    omega
  obtain rfl : p = p' := Option.some.inj (hp.symm.trans hp')
  exact Bool.false_ne_true ((isFixed_of_isSpread hspread).symm.trans htaken)

theorem nodup_arguments {call : Node} (wf : call.WellFormed) : call.arguments.Nodup := by
  unfold Node.arguments
  cases hlist : call.child? .arguments with
  | none => exact List.nodup_nil
  | some list => exact (wf.of_mem (preorder_of_child? hlist)).nodup_parts

theorem expr_of_mem_callbacksFor {callback : Callback}
    (h : callback ∈ callbacksFor parameters arguments) : callback.expr ∈ arguments := by
  obtain h | h := List.mem_append.1 h
  all_goals
    obtain ⟨e, he, rfl⟩ := List.mem_map.1 h
    exact List.fst_mem_of_mem_zipIdx (List.mem_of_mem_filter he)

end Callbacks

end Spawner

/-! ### The spawners of a file -/

namespace Configuration

variable {c : Configuration} {o : Overrides} {settings : Settings} {s : Spawner}

theorem spawners_of_settings (h : c.settings o = .ok settings) :
    ∃ configured, c.spawnerList = .ok configured ∧ settings.spawners = Spawner.builtin ++
      configured := by
  obtain ⟨checkers, -, h⟩ := bind_eq_ok_iff.1 h
  obtain ⟨requirement, -, h⟩ := bind_eq_ok_iff.1 h
  obtain ⟨carriers, -, h⟩ := bind_eq_ok_iff.1 h
  obtain ⟨configured, hconfigured, h⟩ := bind_eq_ok_iff.1 h
  exact ⟨configured, hconfigured, by rw [← Except.ok.inj h]⟩

/-- All spawners of settings belong to a package. -/
theorem package_of_mem_spawners (h : c.settings o = .ok settings) (hs : s ∈ settings.spawners) :
    s.target.package ≠ none := by
  obtain ⟨configured, hconfigured, hspawners⟩ := spawners_of_settings h
  obtain hmem | hmem := List.mem_append.1 (hspawners ▸ hs)
  · exact (by decide : ∀ s ∈ Spawner.builtin, s.target.package ≠ none) s hmem
  · have hlist := mapM_eq_ok_iff.1 hconfigured
    clear hconfigured hspawners
    generalize c.spawners = specs at hlist
    induction hlist with
    | nil => cases hmem
    | cons hspec _ ih =>
      obtain rfl | hmem := List.mem_cons.1 hmem
      · exact Spawner.IsConfigured.package ⟨_, _, _, _, hspec⟩
      · exact ih hmem

end Configuration

/-- The function of the file that a call names: its callee, without parentheses, is a name for
it. -/
def Resolution.calledFunction? (r : Resolution) (call : Node) : Option Node :=
  (call.child? .function).bind fun callee =>
    if callee.bare.kind = .identifier then (r.bindingOf callee.bare).bind fun e =>
      e.2.kind.declaration? else none

theorem Resolution.calledFunction?_eq_some {r : Resolution} {call d : Node} :
    r.calledFunction? call = some d ↔
    ∃ callee i b, call.child? .function = some callee ∧ callee.bare.kind = .identifier ∧
      r.bindingOf callee.bare = some (i, b) ∧ b.kind = .function d := by
  have hkind : ∀ kind : BindingKind, kind.declaration? = some d ↔ kind = .function d := by
    intro kind
    cases kind <;> simp [BindingKind.declaration?]
  simp [calledFunction?, Option.bind_eq_some_iff, hkind]

namespace Spawner

variable {root d callee : Node} {marks : List Nat} {s : Spawner}

/-- The spawners that a file marks, around the one of a function. -/
theorem ofMarks_eq_append {before after : List Node} (hparts : root.parts = before ++ d :: after)
    (hkind : d.kind = .functionDeclaration) (hmark : isMarked marks d = true)
    (hs : ofDeclaration d = some s) :
    ∃ front back, ofMarks root marks = front ++ s :: back ∧ ∀ s' ∈ front, ∃ e ∈ before,
      e.kind = .functionDeclaration ∧ isMarked marks e = true ∧ ofDeclaration e = some s' := by
  have hmarked : (d.kind == .functionDeclaration && isMarked marks d) = true := by
    rw [hkind, hmark]
    rfl
  refine ⟨(before.filter fun e => e.kind == .functionDeclaration && isMarked marks e).filterMap
      ofDeclaration,
    (after.filter fun e => e.kind == .functionDeclaration && isMarked marks e).filterMap
      ofDeclaration, ?_, ?_⟩
  · change (root.parts.filter fun e =>
      e.kind == .functionDeclaration && isMarked marks e).filterMap _ = _
    rw [hparts, List.filter_append, List.filter_cons, if_pos hmarked, List.filterMap_append,
      List.filterMap_cons_some hs]
  · intro s' hs'
    obtain ⟨e, he, hes⟩ := List.mem_filterMap.1 hs'
    obtain ⟨he, hemark⟩ := List.mem_filter.1 he
    obtain ⟨hekind, hemark⟩ := Bool.and_eq_true_iff.1 hemark
    exact ⟨e, he, eq_of_beq hekind, hemark, hes⟩

/-- A plain callee has the name of the spawner. -/
theorem isCallee_of_target {name : String} {r : Resolution} (htarget : s.target = .bare name)
    (hkind : callee.kind = .identifier) : s.isCallee r callee =
      (callee.text == name && (r.bindingOf callee).any fun e => e.2.kind.isFunction) := by
  simp [isCallee, hkind, htarget, QualifiedName.bare]

end Spawner

/-- A name that stands for a function is the function's name. -/
theorem Resolution.text_of_kind {root d n : Node} {i : Nat} {b : Binding} (wf : root.WellFormed)
    (hn : n ∈ root.preorder) (hb : (ofFile root).bindingOf n = some (i, b))
    (hkind : b.kind = .function d) :
    d ∈ root.parts ∧ d.kind = .functionDeclaration ∧ ∃ name, d.child? .name = some name ∧
      n.text = name.text := by
  obtain ⟨huse, hget⟩ := bindingOf_eq_some.1 hb
  obtain ⟨hd, hfunction, hname⟩ := function_of_kind (List.mem_of_getElem? hget) hkind
  obtain ⟨s, hs, hsound⟩ := Resolver.sound_ofFile wf
  rw [← hs] at huse hget
  have hview : s.views[i]? = some b.view := by simp [Resolver.views, hget]
  refine ⟨hd, hfunction, b.decl, hname, ?_⟩
  exact (hsound.used n hn i b.view huse hview).1.trans (hsound.declared i b.view hview).2.1.symm

/-- A function that a call names is declared with a name. -/
theorem Resolution.mem_parts_of_calledFunction? {root call d : Node}
    (h : (ofFile root).calledFunction? call = some d) : d ∈ root.parts ∧
      ∃ name, d.child? .name = some name := by
  obtain ⟨_, _, b, _, _, hb, hfunction⟩ := calledFunction?_eq_some.1 h
  obtain ⟨hd, -, hname⟩ :=
    function_of_kind (List.mem_of_getElem? (bindingOf_eq_some.1 hb).2) hfunction
  exact ⟨hd, b.decl, hname⟩

namespace SpawnSite

open Spawner Inspection

variable {c : Configuration} {o : Overrides} {settings : Settings} {root d list call : Node}
  {before after : List Node}

/-- A call of a marked function is matched with the spawner that its declaration is. -/
theorem ofCall_of_calls {marks : List Nat} {s : Spawner} (wf : root.WellFormed)
    (hsettings : ∀ s ∈ settings.spawners, s.target.package ≠ none) (hmark : isMarked marks d = true)
    (hparts : root.parts = before ++ d :: after)
    (hfirst : ∀ e ∈ before, e.kind = .functionDeclaration → isMarked marks e = true →
      (e.child? .name).map Node.text = (d.child? .name).map Node.text → ¬ TakesCallback e)
    (hcall : call ∈ root.preorder) (hcalls : (Resolution.ofFile root).calledFunction? call = some d)
    (hs : ofDeclaration d = some s) :
    ofCall (ofTree settings root marks).spawners (ofTree settings root marks).resolution call =
      some ⟨s, s.callbacksOf call⟩ := by
  obtain ⟨callee, i, b, hcallee, hkind, hb, hfunction⟩ :=
    Resolution.calledFunction?_eq_some.1 hcalls
  have hmem : callee.bare ∈ root.preorder :=
    preorder_trans (preorder_trans hcall (preorder_of_child? hcallee)) (bare_mem_preorder callee)
  obtain ⟨-, hdkind, name, hname, htext⟩ := Resolution.text_of_kind wf hmem hb hfunction
  have hcalled :
      ((Resolution.ofFile root).bindingOf callee.bare).any
        (fun e => e.2.kind.isFunction) = true := by
    rw [hb, Option.any_some, hfunction]
    rfl
  obtain ⟨front, back, hmarks, hfront⟩ := ofMarks_eq_append hparts hdkind hmark hs
  -- no spawner of the settings has a plain name, and none that is marked in front has the callee's
  have hconfigured : ∀ s' ∈ settings.spawners,
      s'.isCallee (Resolution.ofFile root) callee.bare = false := by
    intro s' hs'
    simp [isCallee, hkind, hsettings s' hs']
  have hearlier : ∀ s' ∈ front, s'.isCallee (Resolution.ofFile root) callee.bare = false := by
    intro s' hs'
    obtain ⟨e, he, hekind, hemark, hes⟩ := hfront s' hs'
    obtain ⟨name', hname', htarget⟩ := target_of_ofDeclaration hes
    rw [isCallee_of_target htarget hkind, Bool.and_eq_false_iff, beq_eq_false_iff_ne]
    refine .inl fun heq => ?_
    have hnone :=
      ofDeclaration_eq_none (hfirst e he hekind hemark (by simp [hname, hname', ← heq, htext]))
    cases hnone.symm.trans hes
  have hself : s.isCallee (Resolution.ofFile root) callee.bare = true := by
    obtain ⟨name', hname', htarget⟩ := target_of_ofDeclaration hs
    obtain rfl : name = name' := Option.some.inj (hname.symm.trans hname')
    rw [isCallee_of_target htarget hkind, htext, hcalled, beq_self_eq_true]
    rfl
  have hfind : (settings.spawners ++ ofMarks root marks).find?
      (fun s => s.isCallee (Resolution.ofFile root) callee.bare) = some s := by
    refine List.find?_eq_some_iff_append.2 ⟨hself, settings.spawners ++ front, back,
      by rw [hmarks, List.append_assoc], fun s' hs' => ?_⟩
    obtain hs' | hs' := List.mem_append.1 hs'
    · rw [hconfigured s' hs']
      rfl
    · rw [hearlier s' hs']
      rfl
  unfold ofCall
  rw [hcallee]
  change ((settings.spawners ++ ofMarks root marks).find? fun s =>
    s.isCallee (Resolution.ofFile root) callee.bare).bind _ = _
  rw [hfind]
  rfl

/-- Under any configuration, a call of a marked function is matched with it, unless a marked
function with its name and a parameter of function type stands in front of it. If one of its
parameters has a function type, at most the last one is variadic and no argument is spread, then the
callbacks are the arguments for parameters of function type and those at or past a variadic
parameter of function type. -/
theorem ofCall_marked (wf : root.WellFormed) (hsettings : c.settings o = .ok settings)
    (hmark : isMarked (Ledger.ofTree root).marks d = true)
    (hparts : root.parts = before ++ d :: after)
    (hfirst : ∀ e ∈ before, e.kind = .functionDeclaration →
      isMarked (Ledger.ofTree root).marks e = true →
        (e.child? .name).map Node.text = (d.child? .name).map Node.text → ¬ TakesCallback e)
    (hlist : d.child? .parameters = some list)
    (hany : ∃ p ∈ list.flatParameters, isFunctionTyped p = true)
    (hlast : LastVariadic list.flatParameters) (hcall : call ∈ root.preorder)
    (hcalls : (Resolution.ofFile root).calledFunction? call = some d)
    (harguments : ∀ a ∈ call.arguments, a.kind ≠ .variadicArgument) :
    ∃ site, ofCall (ofFile settings root).spawners (ofFile settings root).resolution call =
      some site ∧ site.callbacks = callbacksFor list.flatParameters call.arguments ∧
      (site.callbacks.map Callback.expr).Nodup ∧
        ∀ callback ∈ site.callbacks, callback.expr ∈ call.arguments := by
  obtain ⟨-, name, hname⟩ := Resolution.mem_parts_of_calledFunction? hcalls
  obtain ⟨s, hs, -, hcallbacks⟩ := exists_ofDeclaration hname hlist hlast hany
  have hpackages : ∀ s ∈ settings.spawners, s.target.package ≠ none :=
    fun s => Configuration.package_of_mem_spawners hsettings
  refine ⟨_, ofCall_of_calls wf hpackages hmark hparts hfirst hcall hcalls hs,
    hcallbacks call harguments, ?_, ?_⟩
  · rw [hcallbacks call harguments]
    exact nodup_callbacksFor hlast (nodup_arguments (wf.of_mem hcall))
  · rw [hcallbacks call harguments]
    exact fun callback => expr_of_mem_callbacksFor

/-- A marked function with several parameters in a declaration, the last of them variadic, behind a
marked one with its name that has no callbacks. -/
def groupedParameters : String :=
  "package p\n//ctxflow:spawner\nfunc each(n int) \x7b\x7d\n//ctxflow:spawner\n" ++
    "func each(n, m int, f, g func(), hs ...func()) \x7b\x7d\n" ++
    "func run() \x7b\n\teach(1, 2, a, b, c, d)\n\x7d\n"

set_option maxRecDepth 4000 in
theorem ofCall_marked_groupedParameters :
    ∃ d list call site, isMarked (Ledger.ofTree (parse groupedParameters)).marks d = true ∧
      d.child? .parameters = some list ∧ LastVariadic list.flatParameters ∧
      (Resolution.ofFile (parse groupedParameters)).calledFunction? call = some d ∧
      ofCall (ofFile .standard (parse groupedParameters)).spawners
        (ofFile .standard (parse groupedParameters)).resolution call = some site ∧
      site.callbacks.map (fun callback => (callback.expr.text, callback.ordinal)) =
        [("a", none), ("b", none), ("c", some 5), ("d", some 6)] := by
  have hsettings : Configuration.empty.settings .none = .ok .standard := rfl
  have hfound : (parse groupedParameters).preorder.any (fun call =>
      (Resolution.calledFunction? (.ofFile (parse groupedParameters)) call).any fun d =>
        isMarked (Ledger.ofTree (parse groupedParameters)).marks d &&
        (parse groupedParameters).parts.all (fun e =>
          (e.child? .parameters).any (fun list => list.flatParameters.any isFunctionTyped) →
            e.id = d.id) &&
        (d.child? .parameters).any fun list => list.flatParameters.any isFunctionTyped &&
          decide (LastVariadic list.flatParameters) && call.arguments.all
            (fun a => a.kind ≠ .variadicArgument) &&
          (callbacksFor list.flatParameters call.arguments).map
            (fun callback => (callback.expr.text, callback.ordinal)) ==
              [("a", none), ("b", none), ("c", some 5), ("d", some 6)]) = true := by
    decide +kernel
  simp only [List.any_eq_true, Option.any_eq_true, Bool.and_eq_true, List.all_eq_true, beq_iff_eq,
    decide_eq_true_eq] at hfound
  obtain ⟨call, hcall, d, hcalls, ⟨hmark, hid⟩, list, hlist, ⟨⟨hany, hlast⟩, harguments⟩,
    hcallbacks⟩ := hfound
  have wf := parse_wellFormed groupedParameters
  have hd := (Resolution.mem_parts_of_calledFunction? hcalls).1
  obtain ⟨before, after, hparts⟩ := List.append_of_mem hd
  -- the function is the only one with callbacks, so it would stand in front of itself
  have hfirst : ∀ e ∈ before, e.kind = .functionDeclaration →
      isMarked (Ledger.ofTree (parse groupedParameters)).marks e = true →
      (e.child? .name).map Node.text = (d.child? .name).map Node.text → ¬ TakesCallback e := by
    intro e he _ _ _ htakes
    have hmem : e ∈ (parse groupedParameters).parts := by
      rw [hparts]
      exact List.mem_append_left _ he
    have heq : e = d := wf.distinct.eq_of_id (Search.parts_subset hmem) (Search.parts_subset hd)
      (hid e hmem htakes)
    exact (List.nodup_append.1 (hparts ▸ wf.nodup_parts)).2.2 e he d List.mem_cons_self heq
  obtain ⟨site, hsite, heq, -⟩ :=
    ofCall_marked wf hsettings hmark hparts hfirst hlist hany hlast hcall hcalls harguments
  exact ⟨d, list, call, site, hmark, hlist, hlast, hcalls, hsite, heq ▸ hcallbacks⟩

def declaredTwice : String :=
  "package p\nimport \"context\"\n//ctxflow:spawner\nfunc spawn(f func()) \x7b\x7d\n" ++
    "//ctxflow:spawner\nfunc spawn(n int, f func()) \x7b\x7d\n" ++
    "func run(ctx context.Context) \x7b\n\tspawn(1, func() \x7b\x7d)\n\x7d\n"

set_option maxRecDepth 4000 in
/-- The call of the second function is matched with the first, and the callback is no argument for a
parameter of function type. -/
theorem callbacks_ne_declaredTwice :
    ∃ d list call site, isMarked (Ledger.ofTree (parse declaredTwice)).marks d = true ∧
      d.child? .parameters = some list ∧ (∃ p ∈ list.flatParameters, isFunctionTyped p = true) ∧
      LastVariadic list.flatParameters ∧
      (Resolution.ofFile (parse declaredTwice)).calledFunction? call = some d ∧
      (∀ a ∈ call.arguments, a.kind ≠ .variadicArgument) ∧
      ofCall (ofFile .standard (parse declaredTwice)).spawners
        (ofFile .standard (parse declaredTwice)).resolution call = some site ∧
      site.callbacks.map (fun callback => callback.expr.text) = ["1"] ∧
      (callbacksFor list.flatParameters call.arguments).map (fun callback => callback.expr.text) =
        ["func() \x7b\x7d"] := by
  have hfound : (parse declaredTwice).preorder.any (fun call =>
      (Resolution.calledFunction? (.ofFile (parse declaredTwice)) call).any fun d =>
        isMarked (Ledger.ofTree (parse declaredTwice)).marks d &&
        (d.child? .parameters).any fun list => list.flatParameters.any isFunctionTyped &&
          decide (LastVariadic list.flatParameters) && call.arguments.all
            (fun a => a.kind ≠ .variadicArgument) &&
          (ofCall (ofFile .standard (parse declaredTwice)).spawners
            (ofFile .standard (parse declaredTwice)).resolution call).any
            (fun site => site.callbacks.map (fun callback => callback.expr.text) == ["1"]) &&
          (callbacksFor list.flatParameters call.arguments).map
            (fun callback => callback.expr.text) == ["func() \x7b\x7d"]) = true := by
    decide +kernel
  simp only [List.any_eq_true, Option.any_eq_true, Bool.and_eq_true, List.all_eq_true, beq_iff_eq,
    decide_eq_true_eq] at hfound
  obtain ⟨call, -, d, hcalls, hmark, list, hlist,
    ⟨⟨⟨hany, hlast⟩, harguments⟩, site, hsite, htexts⟩, htexts'⟩ := hfound
  exact ⟨d, list, call, site, hmark, hlist, hany, hlast, hcalls, harguments, hsite, htexts, htexts'⟩

end SpawnSite

end Handoff

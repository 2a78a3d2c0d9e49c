import Handoff.Proofs.Verdict.Literal
import Mathlib.Data.Finset.Card
import Mathlib.Data.List.Chain
import Mathlib.Data.List.Nodup
import Mathlib.Tactic.MkIffOfInductiveProp

/-!
# Variables that may hold a context

A variable without a type may hold a context if something unknown is written to it, or if it is a
copy of another binding that may hold one. So the answer is about chains of copies. Copies may go
around in circles, and a chain that comes to a binding twice says no more than one that does not;
hence as many rounds as there are bindings find everything. Following the copies depth first finds
the same, although the bindings that were entered once are never entered again: where nothing was
found in a binding, nothing will be.

## Main definitions

* `Resolution.Copies`: a binding without a type is written with another one.
* `Resolution.Holds`: a binding may hold a context on its own account.
* `Resolution.HoldsThrough`: a chain of copies that ends at such a binding.
* `Resolution.enter`: following the copies depth first.
* `Binding.Rearranges`: a binding with its writes in another order.

## Main statement

* `Resolution.mayHoldToken_chain`: what the answer on a binding is.
-/

namespace Handoff

open Syntax Node

def Binding.IsUntypedLocal (b : Binding) : Prop :=
  b.type = none ∧ b.kind.isLocal = true

def Binding.Rearranges (b b' : Binding) : Prop :=
  ∃ writes, b.writes.Perm writes ∧ b' = { b with writes }

variable {r r' : Resolution} {carriers : Carriers} {i j : Nat} {b : Binding} {value : Node}

namespace Resolution

/-! ### Single bindings -/

def plainKinds : List Kind :=
  [.intLiteral, .floatLiteral, .imaginaryLiteral, .runeLiteral, .interpretedStringLiteral,
    .rawStringLiteral,
   .trueLiteral, .falseLiteral, .nilLiteral, .iota, .funcLiteral, .compositeLiteral,
     .binaryExpression]

/-- An expression that may be a context, whatever the file shows: a name without a binding,
something received or dereferenced, or, names and unary expressions aside, an expression of a kind
that is not listed. -/
@[mk_iff]
inductive MayBeToken (r : Resolution) (value : Node) : Prop where
  | unresolved (hkind : value.bare.kind = .identifier) (huse : r.useOf value.bare = none)
  | received (hkind : value.bare.kind = .unaryExpression)
      (hoperator : (value.bare.child? .operator).map Node.text = some "<-")
  | dereferenced (hkind : value.bare.kind = .unaryExpression)
      (hoperator : (value.bare.child? .operator).map Node.text = some "*")
  | other (hkind : value.bare.kind ∉ .identifier :: .unaryExpression :: plainKinds)

/-- The first binding is a local variable without a type, and a write gives it the value of the
second. -/
def Copies (r : Resolution) (i j : Nat) : Prop :=
  ∃ b, r.bindings[i]? = some b ∧ b.IsUntypedLocal ∧ ∃ w ∈ b.writes, ∃ value, w.value = some value ∧
    value.bare.kind = .identifier ∧ r.useOf value.bare = some j

/-- A binding may hold a context on its own account: it has the type of one; or it is a local
variable without a type that a clause binds and nothing writes to, or that something unknown is
written to. -/
def Holds (r : Resolution) (carriers : Carriers) (i : Nat) : Prop :=
  ∃ b, r.bindings[i]? = some b ∧
    ((∃ t, b.type = some t ∧ carriers.isToken t = true) ∨
      b.IsUntypedLocal ∧ b.writes = [] ∧ b.kind ≠ .localVariable true ∨
      b.IsUntypedLocal ∧ ∃ w ∈ b.writes, ∀ value, w.value = some value → r.MayBeToken value)

theorem isPlainKind_iff {kind : Kind} : isPlainKind kind = true ↔ kind ∈ plainKinds := by
  cases kind <;> simp [isPlainKind, plainKinds]

theorem originOf_eq_copy_iff :
    r.originOf value = .copy j ↔ value.bare.kind = .identifier ∧ r.useOf value.bare = some j := by
  rw [originOf]
  split
  next hkind => cases huse : r.useOf value.bare <;> simp [hkind]
  next hkind => split <;> simp [hkind]
  next hkind _ =>
    have hkind : value.bare.kind ≠ .identifier := hkind
    split <;> simp [hkind]

theorem originOf_eq_unknown_iff : r.originOf value = .unknown ↔ r.MayBeToken value := by
  rw [mayBeToken_iff, originOf]
  split
  next hkind => cases huse : r.useOf value.bare <;> simp [hkind]
  next hkind => split <;> simp_all
  next hidentifier hunary =>
    have hidentifier : value.bare.kind ≠ .identifier := hidentifier
    have hunary : value.bare.kind ≠ .unaryExpression := hunary
    simp [hidentifier, hunary, ← isPlainKind_iff]

/-- Where the origins of a binding come from. -/
theorem mem_origins {o : Origin} : o ∈ r.origins b ↔ b.IsUntypedLocal ∧
    (b.writes = [] ∧
      (o = .plain ∧ b.kind = .localVariable true ∨ o = .unknown ∧ b.kind ≠ .localVariable true) ∨
        ∃ w ∈ b.writes, (w.value.map r.originOf).getD .unknown = o) := by
  unfold origins Binding.IsUntypedLocal
  cases b.type with
  | some t => simp
  | none =>
    cases b.kind with
    | localVariable bySpec =>
      cases hwrites : b.writes with
      | nil => cases bySpec <;> simp [BindingKind.isLocal]
      | cons w writes => simp [BindingKind.isLocal, eq_comm]
    | function | packageVariable | parameter => simp [BindingKind.isLocal]

theorem copies_iff (hb : r.bindings[i]? = some b) : r.Copies i j ↔ .copy j ∈ r.origins b := by
  have hwritten : ∀ w : Write, (w.value.map r.originOf).getD .unknown = .copy j ↔
      ∃ value, w.value = some value ∧ value.bare.kind = .identifier ∧
        r.useOf value.bare = some j := by
    intro w
    cases w.value <;> simp [originOf_eq_copy_iff]
  simp [Copies, hb, mem_origins, hwritten]

theorem holds_iff (hb : r.bindings[i]? = some b) (htype : b.type = none) :
    r.Holds carriers i ↔ .unknown ∈ r.origins b := by
  have hwritten : ∀ w : Write, (w.value.map r.originOf).getD .unknown = .unknown ↔
      ∀ value, w.value = some value → r.MayBeToken value := by
    intro w
    cases w.value <;> simp [originOf_eq_unknown_iff]
  simp [Holds, hb, htype, mem_origins, hwritten, ← and_or_left]

theorem holds_iff_isToken {t : TypeName} (hb : r.bindings[i]? = some b) (htype : b.type = some t) :
    r.Holds carriers i ↔ carriers.isToken t = true := by
  simp [Holds, hb, htype, Binding.IsUntypedLocal]

theorem mem_copies : j ∈ r.copies i ↔ r.Copies i j := by
  unfold copies
  cases hb : r.bindings[i]? with
  | none => simp [Copies, hb]
  | some b =>
    rw [copies_iff hb, List.mem_filterMap]
    constructor
    · rintro ⟨o, ho, hj⟩
      cases o <;> simp_all
    · exact fun h => ⟨_, h, rfl⟩

theorem isSource_iff : r.isSource carriers i = true ↔ r.Holds carriers i := by
  unfold isSource
  cases hb : r.bindings[i]? with
  | none => simp [Holds, hb]
  | some b =>
    cases htype : b.type with
    | some t => simp [holds_iff_isToken hb htype, htype]
    | none => simp [holds_iff hb htype, htype]

/-! ### Chains -/

def HoldsThrough (r : Resolution) (carriers : Carriers) (i : Nat) (chain : List Nat) : Prop :=
  (i :: chain).IsChain r.Copies ∧ r.Holds carriers (chain.getLastD i)

/-- Where a chain passes its start again, the way up to there can be left out. -/
theorem HoldsThrough.exists_nodup {chain : List Nat} (h : r.HoldsThrough carriers i chain) :
    ∃ chain, r.HoldsThrough carriers i chain ∧ (i :: chain).Nodup := by
  obtain ⟨hchain, hholds⟩ := h
  induction chain generalizing i with
  | nil => exact ⟨[], ⟨hchain, hholds⟩, by simp⟩
  | cons c chain ih =>
    rw [List.getLastD_cons] at hholds
    obtain ⟨hcopies, hchain⟩ := List.isChain_cons_cons.1 hchain
    obtain ⟨rest, ⟨hrest, hlast⟩, hnodup⟩ := ih hchain hholds
    by_cases hi : i ∈ c :: rest
    · obtain ⟨before, after, hsplit⟩ := List.append_of_mem hi
      have hsuffix : i :: after <:+ c :: rest := ⟨before, hsplit.symm⟩
      refine ⟨after, ⟨hrest.suffix hsuffix, ?_⟩, hnodup.sublist hsuffix.sublist⟩
      have hlasts : after.getLastD i = rest.getLastD c := by
        rw [← List.getLastD_cons (a := 0) (b := i), ← List.getLastD_cons (a := 0) (b := c), hsplit]
        simp [List.getLast?_cons]
      rwa [hlasts]
    · exact ⟨c :: rest, ⟨List.isChain_cons_cons.2 ⟨hcopies, hrest⟩, by rwa [List.getLastD_cons]⟩,
        List.nodup_cons.2 ⟨hi, hnodup⟩⟩

/-- A chain without repetitions has no more members than the file has bindings. -/
theorem HoldsThrough.length_lt {chain : List Nat} (h : r.HoldsThrough carriers i chain)
    (hnodup : (i :: chain).Nodup) : chain.length < r.bindings.length := by
  have hlast : ∀ k, r.Holds carriers k → k < r.bindings.length := by
    rintro k ⟨b, hb, -⟩
    exact (List.getElem?_eq_some_iff.1 hb).1
  have hmember : ∀ k ∈ i :: chain, k < r.bindings.length := by
    obtain ⟨hchain, hholds⟩ := h
    clear hnodup
    induction chain generalizing i with
    | nil => simpa using hlast i hholds
    | cons c chain ih =>
      obtain ⟨⟨b, hb, -⟩, hchain⟩ := List.isChain_cons_cons.1 hchain
      rw [List.getLastD_cons] at hholds
      exact List.forall_mem_cons.2 ⟨(List.getElem?_eq_some_iff.1 hb).1, ih hchain hholds⟩
  have hsubset : i :: chain ⊆ List.range r.bindings.length :=
    fun k hk => List.mem_range.2 (hmember k hk)
  have hlength := (List.subperm_of_subset hnodup hsubset).length_le
  rw [List.length_cons, List.length_range] at hlength
  omega

/-! ### Rounds -/

variable {frontier reached : List Nat} {n : Nat}

def newCopies (r : Resolution) (frontier reached : List Nat) : List Nat :=
  ((frontier.flatMap r.copies).filter fun i => !reached.contains i).eraseDups

theorem mem_newCopies : j ∈ r.newCopies frontier reached ↔ (∃ k ∈ frontier, r.Copies k j) ∧
    j ∉ reached := by
  simp [newCopies, List.mem_eraseDups, mem_copies]

theorem reachedBy_succ : r.reachedBy (n + 1) frontier reached =
    if r.newCopies frontier reached = [] then reached
    else r.reachedBy n (r.newCopies frontier reached)
      (reached ++ r.newCopies frontier reached) := by
  rw [reachedBy]
  split
  next h => exact (if_pos h).symm
  next h => exact (if_neg h).symm

/-- Only bindings that the first ones copy are reached. -/
theorem reflTransGen_of_mem_reachedBy (hreached : ∀ k ∈ reached, Relation.ReflTransGen r.Copies i k)
    (hfrontier : frontier ⊆ reached) (hj : j ∈ r.reachedBy n frontier reached) :
    Relation.ReflTransGen r.Copies i j := by
  induction n generalizing frontier reached with
  | zero => exact hreached j hj
  | succ n ih =>
    rw [reachedBy_succ] at hj
    split at hj
    · exact hreached j hj
    · refine ih (fun k hk => ?_) (List.subset_append_right _ _) hj
      obtain hk | hk := List.mem_append.1 hk
      · exact hreached k hk
      · obtain ⟨⟨c, hc, hcopy⟩, -⟩ := mem_newCopies.1 hk
        exact (hreached c (hfrontier hc)).tail hcopy

/-- After as many rounds as a chain has steps, its end is reached: all that is reached, the frontier
aside, has its copies among what is reached. -/
theorem mem_reachedBy_of_isChain {chain : List Nat} (hchain : (i :: chain).IsChain r.Copies)
    (hi : i ∈ reached) (hbehind : ∀ k ∈ reached, k ∉ frontier → ∀ c, r.Copies k c → c ∈ reached)
    (hn : chain.length ≤ n) : chain.getLastD i ∈ r.reachedBy n frontier reached := by
  induction n generalizing frontier reached i chain with
  | zero =>
    obtain rfl := List.length_eq_zero_iff.1 (Nat.le_zero.1 hn)
    exact hi
  | succ n ih =>
    have hcopies : ∀ k ∈ reached, ∀ c, r.Copies k c →
        c ∈ reached ++ r.newCopies frontier reached := by
      intro k hk c hc
      rw [List.mem_append, mem_newCopies]
      by_cases hfrontier : k ∈ frontier
      · exact or_iff_not_imp_left.2 fun hnew => ⟨⟨k, hfrontier, hc⟩, hnew⟩
      · exact .inl (hbehind k hk hfrontier c hc)
    rw [reachedBy_succ]
    split
    next hnone =>
      -- nothing new: the chain stays in what is reached
      rw [hnone, List.append_nil] at hcopies
      clear ih hn
      induction chain generalizing i with
      | nil => exact hi
      | cons c chain ih =>
        obtain ⟨hcopy, hchain⟩ := List.isChain_cons_cons.1 hchain
        rw [List.getLastD_cons]
        exact ih hchain (hcopies i hi c hcopy)
    next =>
      cases chain with
      | nil => exact subset_reachedBy r n _ _ (List.mem_append_left _ hi)
      | cons c chain =>
        obtain ⟨hcopy, hchain⟩ := List.isChain_cons_cons.1 hchain
        rw [List.getLastD_cons]
        refine ih hchain (hcopies i hi c hcopy) (fun k hk hnew => ?_) (by simpa using hn)
        exact hcopies k ((List.mem_append.1 hk).resolve_right hnew)

/-- A binding may hold a context just when copies lead from it to one that holds one. -/
theorem mayHoldToken_iff_exists_chain :
    r.mayHoldToken carriers i = true ↔ ∃ chain, r.HoldsThrough carriers i chain := by
  rw [mayHoldToken, List.any_eq_true]
  constructor
  · rintro ⟨j, hj, hsource⟩
    have hreach : Relation.ReflTransGen r.Copies i j :=
      reflTransGen_of_mem_reachedBy (by simpa using .refl) (List.Subset.refl _) hj
    obtain ⟨chain, hchain, hlast⟩ := List.exists_isChain_cons_of_relationReflTransGen hreach
    rw [List.getLast_eq_getLastD] at hlast
    exact ⟨chain, hchain, hlast ▸ isSource_iff.1 hsource⟩
  · rintro ⟨chain, h⟩
    obtain ⟨chain, h, hnodup⟩ := h.exists_nodup
    refine ⟨chain.getLastD i, mem_reachedBy_of_isChain h.1 (List.mem_singleton_self i) ?_ ?_,
      isSource_iff.2 h.2⟩
    · exact fun k hk hnot => absurd hk hnot
    · exact (h.length_lt hnodup).le

/-! ### Depth first -/

/-- Whether some of the origins may be a context, copies judged by `enter`. The bindings that were
entered are handed on from one copy to the next, and the first that may hold a context ends the
search. -/
def searchOrigins (enter : Nat → Finset Nat → Option (Bool × Finset Nat)) :
    List Origin → Finset Nat → Option (Bool × Finset Nat)
  | [], seen => some (false, seen)
  | .unknown :: _, seen => some (true, seen)
  | .plain :: origins, seen => searchOrigins enter origins seen
  | .copy j :: origins, seen =>
    match enter j seen with
    | none => none
    | some (true, seen) => some (true, seen)
    | some (false, seen) => searchOrigins enter origins seen

/-- Whether a binding may hold a context, by following copies depth first, with the bindings that
were entered. A binding is entered once. There is no answer when more than the given number of calls
would be nested. -/
def enter (r : Resolution) (carriers : Carriers) : Nat → Nat → Finset Nat →
    Option (Bool × Finset Nat)
  | 0, _, _ => none
  | n + 1, i, seen =>
    match r.bindings[i]? with
    | none => some (false, seen)
    | some b =>
      match b.type with
      | some t => some (carriers.isToken t, seen)
      | none =>
        if b.kind.isLocal && !decide (i ∈ seen) then
          searchOrigins (r.enter carriers n) (r.origins b) (insert i seen)
        else some (false, seen)

variable {seen seen' seen'' : Finset Nat} {found : Bool}

/-- Nothing is found in a binding: it was entered, or it neither holds a context nor copies one. -/
def Settled (r : Resolution) (carriers : Carriers) (seen : Finset Nat) (i : Nat) : Prop :=
  i ∈ seen ∨ ¬ r.Holds carriers i ∧ ∀ j, ¬ r.Copies i j

/-- The bindings that were newly entered hold no context, and nothing is found in what they copy. -/
structure Explored (r : Resolution) (carriers : Carriers) (seen seen' : Finset Nat) : Prop where
  subset : seen ⊆ seen'
  settled : ∀ k ∈ seen', k ∉ seen → ¬ r.Holds carriers k ∧ ∀ j, r.Copies k j →
    r.Settled carriers seen' j

theorem Settled.mono (h : r.Settled carriers seen i) (hsub : seen ⊆ seen') :
    r.Settled carriers seen' i :=
  h.imp_left fun hi => hsub hi

theorem Explored.refl (seen : Finset Nat) : r.Explored carriers seen seen :=
  ⟨subset_rfl, fun _ hk hnew => absurd hk hnew⟩

theorem Explored.trans (h : r.Explored carriers seen seen')
    (h' : r.Explored carriers seen' seen'') :
    r.Explored carriers seen seen'' := by
  refine ⟨h.subset.trans h'.subset, fun k hk hnew => ?_⟩
  by_cases hfirst : k ∈ seen'
  · obtain ⟨hholds, hcopies⟩ := h.settled k hfirst hnew
    exact ⟨hholds, fun j hj => (hcopies j hj).mono h'.subset⟩
  · exact h'.settled k hk hfirst

/-- What a search comes to that finds something at once if `here`, and else in the bindings of
`start`. -/
structure Searches (r : Resolution) (carriers : Carriers) (here : Prop) (start : Nat → Prop)
    (seen : Finset Nat) (found : Bool) (seen' : Finset Nat) : Prop where
  sound : found = true → here ∨ ∃ i, start i ∧ ∃ chain, r.HoldsThrough carriers i chain
  subset : seen ⊆ seen'
  complete : found = false → ¬ here ∧ r.Explored carriers seen seen' ∧ ∀ i, start i →
    r.Settled carriers seen' i

/-- Going through origins keeps what a search of each copy comes to. -/
theorem searchOrigins_searches {judge : Nat → Finset Nat → Option (Bool × Finset Nat)}
    (origins : List Origin)
    (hjudge : ∀ j seen', seen ⊆ seen' → ∃ found seen'', judge j seen' = some (found, seen'') ∧
      r.Searches carriers False (· = j) seen' found seen'') :
    ∃ found seen', searchOrigins judge origins seen = some (found, seen') ∧
      r.Searches carriers (.unknown ∈ origins) (.copy · ∈ origins) seen found seen' := by
  induction origins generalizing seen with
  | nil => exact ⟨false, seen, rfl, by simp, subset_rfl, by simp [Explored.refl]⟩
  | cons o origins ih =>
    cases o with
    | unknown => exact ⟨true, seen, rfl, by simp, subset_rfl, by simp⟩
    | plain =>
      obtain ⟨found, seen', hsearch, h⟩ := ih hjudge
      exact ⟨found, seen', hsearch, by simpa using h.sound, h.subset, by simpa using h.complete⟩
    -- the first copy is judged before the rest, which see what it has entered
    | copy j =>
      obtain ⟨first, seen', hfirst, h⟩ := hjudge j seen subset_rfl
      cases first with
      | true =>
        refine ⟨true,
          seen', by simp [searchOrigins, hfirst], fun _ => .inr ⟨j, by simp, ?_⟩, h.subset, by simp⟩
        simpa using h.sound rfl
      | false =>
        obtain ⟨-, hexplored, hsettled⟩ := h.complete rfl
        obtain ⟨found, seen'', hrest, h'⟩ := ih fun k seen'' hsub =>
          hjudge k seen'' (h.subset.trans hsub)
        refine ⟨found, seen'', by simp [searchOrigins, hfirst, hrest], fun hfound => ?_,
          h.subset.trans h'.subset, fun hfound => ?_⟩
        · obtain hunknown | ⟨k, hk, hchain⟩ := h'.sound hfound
          · exact .inl (List.mem_cons_of_mem _ hunknown)
          · exact .inr ⟨k, List.mem_cons_of_mem _ hk, hchain⟩
        · obtain ⟨hunknown, hexplored', hsettled'⟩ := h'.complete hfound
          refine ⟨by simpa using hunknown, hexplored.trans hexplored', fun k hk => ?_⟩
          obtain hk | hk := List.mem_cons.1 hk
          · exact (hsettled k (Origin.copy.inj hk)).mono h'.subset
          · exact hsettled' k hk

/-- A binding that is no variable without a type answers for itself. -/
theorem enter_of_not_isUntypedLocal {n : Nat}
    (h : ∀ b, r.bindings[i]? = some b → ¬ b.IsUntypedLocal) :
    r.enter carriers (n + 1) i seen = some (r.isSource carriers i, seen) := by
  rw [enter, isSource]
  cases hb : r.bindings[i]? with
  | none => rfl
  | some b =>
    cases htype : b.type with
    | some t => simp [htype]
    | none =>
      have hkind : b.kind.isLocal = false := by simpa [Binding.IsUntypedLocal, htype] using h b hb
      simp [htype, hkind, mem_origins, h b hb]

theorem searches_of_not_isUntypedLocal (h : ∀ b, r.bindings[i]? = some b → ¬ b.IsUntypedLocal) :
    r.Searches carriers False (· = i) seen (r.isSource carriers i) seen := by
  have hcopies : ∀ j, ¬ r.Copies i j := by
    rintro j ⟨b, hb, hlocal, -⟩
    exact h b hb hlocal
  refine ⟨fun hsource => .inr ⟨i, rfl, [], by simp, isSource_iff.1 hsource⟩, subset_rfl,
    fun hsource => ?_⟩
  refine ⟨id, .refl seen, ?_⟩
  rintro k rfl
  exact .inr ⟨by simp [← isSource_iff, hsource], hcopies⟩

/-- A search of the origins of a variable is a search from the variable. -/
theorem Searches.of_origins (hb : r.bindings[i]? = some b) (hlocal : b.IsUntypedLocal)
    (h : r.Searches carriers (.unknown ∈ r.origins b) (.copy · ∈ r.origins b)
      (insert i seen) found seen') :
    r.Searches carriers False (· = i) seen found seen' := by
  have hi : i ∈ seen' := h.subset (Finset.mem_insert_self i seen)
  refine ⟨fun hfound => .inr ⟨i, rfl, ?_⟩, (Finset.subset_insert i seen).trans h.subset,
    fun hfound => ?_⟩
  · obtain hunknown | ⟨j, hj, chain, hchain, hholds⟩ := h.sound hfound
    · exact ⟨[], by simp, (holds_iff hb hlocal.1).2 hunknown⟩
    · refine ⟨j :: chain, List.isChain_cons_cons.2 ⟨(copies_iff hb).2 hj, hchain⟩, ?_⟩
      rwa [List.getLastD_cons]
  · obtain ⟨hunknown, hexplored, hsettled⟩ := h.complete hfound
    refine ⟨id, ⟨(Finset.subset_insert i seen).trans h.subset, fun k hk hnew => ?_⟩,
      fun k hk => .inl (hk ▸ hi)⟩
    by_cases hki : k = i
    · subst hki
      exact ⟨fun hholds => hunknown ((holds_iff hb hlocal.1).1 hholds),
        fun j hj => hsettled j ((copies_iff hb).1 hj)⟩
    · exact hexplored.settled k hk (by simp [hki, hnew])

/-- With more calls than bindings that were not entered yet, the search from a binding ends, and
nothing is left to be found where it found nothing. -/
theorem enter_searches (carriers : Carriers) (i : Nat) {n : Nat}
    (hn : (Finset.range r.bindings.length \ seen).card < n) :
    ∃ found seen', r.enter carriers n i seen = some (found, seen') ∧
      r.Searches carriers False (· = i) seen found seen' := by
  induction n generalizing i seen with
  | zero => exact absurd hn (Nat.not_lt_zero _)
  | succ n ih =>
    by_cases hleaf : ∀ b, r.bindings[i]? = some b → ¬ b.IsUntypedLocal
    · exact ⟨_, seen, enter_of_not_isUntypedLocal hleaf, searches_of_not_isUntypedLocal hleaf⟩
    push Not at hleaf
    obtain ⟨b, hb, hlocal⟩ := hleaf
    have hstep : r.enter carriers (n + 1) i seen = if i ∈ seen then some (false, seen)
        else searchOrigins (r.enter carriers n) (r.origins b) (insert i seen) := by
      simp [enter, hb, hlocal.1, hlocal.2]
    rw [hstep]
    split
    next hi =>
      refine ⟨false, seen, rfl, by simp, subset_rfl, fun _ => ⟨id, .refl seen, ?_⟩⟩
      rintro k rfl
      exact .inl hi
    next hi =>
      -- the binding itself is one less that was not entered
      have hless : ∀ j seen', insert i seen ⊆ seen' →
          ∃ found seen'', r.enter carriers n j seen' = some (found, seen'') ∧
            r.Searches carriers False (· = j) seen' found seen'' := by
        intro j seen' hsub
        have hrange : i ∈ Finset.range r.bindings.length \ seen := by
          simpa [hi] using (List.getElem?_eq_some_iff.1 hb).1
        have hlt : (Finset.range r.bindings.length \ seen').card <
            (Finset.range r.bindings.length \ seen).card := by
          refine Finset.card_lt_card (Finset.ssubset_iff_of_subset ?_ |>.2 ⟨i, hrange, ?_⟩)
          · exact Finset.sdiff_subset_sdiff subset_rfl ((Finset.subset_insert i seen).trans hsub)
          · simpa using fun _ => hsub (Finset.mem_insert_self i seen)
        exact ih j (by omega)
      obtain ⟨found, seen', hsearch, h⟩ := searchOrigins_searches (r.origins b) hless
      exact ⟨found, seen', hsearch, .of_origins hb hlocal h⟩

/-- Where nothing is found in a binding, no chain leads from it to a context. -/
theorem Explored.not_holdsThrough (h : r.Explored carriers ∅ seen) (hi : r.Settled carriers seen i)
    (chain : List Nat) : ¬ r.HoldsThrough carriers i chain := by
  induction chain generalizing i with
  | nil =>
    rintro ⟨-, hholds⟩
    obtain hi | ⟨hnone, -⟩ := hi
    · exact (h.settled i hi (Finset.notMem_empty i)).1 hholds
    · exact hnone hholds
  | cons c chain ih =>
    rintro ⟨hchain, hholds⟩
    obtain ⟨hcopy, hchain⟩ := List.isChain_cons_cons.1 hchain
    rw [List.getLastD_cons] at hholds
    obtain hi | ⟨-, hnone⟩ := hi
    · exact ih ((h.settled i hi (Finset.notMem_empty i)).2 c hcopy) ⟨hchain, hholds⟩
    · exact hnone c hcopy

/-- Following copies depth first ends, and answers as the rounds do. -/
theorem exists_enter_eq (carriers : Carriers) (i : Nat) {n : Nat} (hn : r.bindings.length < n) :
    ∃ seen, r.enter carriers n i ∅ = some (r.mayHoldToken carriers i, seen) := by
  have hcard : (Finset.range r.bindings.length \ ∅).card < n := by simpa using hn
  obtain ⟨found, seen, hsearch, h⟩ := enter_searches carriers i hcard
  have hfound : found = true ↔ ∃ chain, r.HoldsThrough carriers i chain := by
    constructor
    · intro hfound
      obtain hfalse | ⟨k, rfl, hchain⟩ := h.sound hfound
      · exact hfalse.elim
      · exact hchain
    · rintro ⟨chain, hchain⟩
      by_contra hnot
      obtain ⟨-, hexplored, hsettled⟩ := h.complete (Bool.eq_false_iff.2 hnot)
      exact hexplored.not_holdsThrough (hsettled i rfl) chain hchain
  exact ⟨seen, by rw [hsearch, Bool.eq_iff_iff.2 (hfound.trans mayHoldToken_iff_exists_chain.symm)]⟩

/-! ### The order of writes -/

/-- Names stand for the same bindings, with their writes in another order. -/
structure Rearranges (r r' : Resolution) : Prop where
  uses : r.uses = r'.uses
  bindings : List.Forall₂ Binding.Rearranges r.bindings r'.bindings

end Resolution

theorem Binding.Rearranges.symm {b b' : Binding} (h : b.Rearranges b') : b'.Rearranges b := by
  obtain ⟨writes, hperm, rfl⟩ := h
  exact ⟨b.writes, hperm.symm, rfl⟩

namespace Resolution.Rearranges

theorem symm (h : r.Rearranges r') : r'.Rearranges r :=
  ⟨h.uses.symm, h.bindings.flip.imp fun _ _ => Binding.Rearranges.symm⟩

/-- What holds of a binding and does not depend on the order of its writes holds of the rearranged
one. -/
theorem exists_binding (h : r.Rearranges r') (hb : r.bindings[i]? = some b) :
    ∃ writes, b.writes.Perm writes ∧ r'.bindings[i]? = some { b with writes } := by
  obtain ⟨hi, hget⟩ := List.getElem?_eq_some_iff.1 hb
  obtain ⟨writes, hperm, heq⟩ := h.bindings.get hi (h.bindings.length_eq ▸ hi)
  simp only [List.get_eq_getElem, hget] at hperm heq
  exact ⟨writes, hperm, List.getElem?_eq_some_iff.2 ⟨_, heq⟩⟩

theorem copies (h : r.Rearranges r') (hcopies : r.Copies i j) : r'.Copies i j := by
  obtain ⟨b, hb, hlocal, w, hw, value, hvalue, hkind, huse⟩ := hcopies
  obtain ⟨writes, hperm, hb'⟩ := h.exists_binding hb
  refine ⟨_, hb', hlocal, w, hperm.mem_iff.1 hw, value, hvalue, hkind, ?_⟩
  rwa [useOf, ← h.uses]

theorem mayBeToken (h : r.Rearranges r') (hvalue : r.MayBeToken value) : r'.MayBeToken value := by
  obtain ⟨hkind, huse⟩ | ⟨hkind, hoperator⟩ | ⟨hkind, hoperator⟩ | hkind := hvalue
  · refine .unresolved hkind ?_
    rwa [useOf, ← h.uses]
  · exact .received hkind hoperator
  · exact .dereferenced hkind hoperator
  · exact .other hkind

theorem holds (h : r.Rearranges r') (hholds : r.Holds carriers i) : r'.Holds carriers i := by
  obtain ⟨b, hb, hcases⟩ := hholds
  obtain ⟨writes, hperm, hb'⟩ := h.exists_binding hb
  refine ⟨_, hb', ?_⟩
  obtain htoken | ⟨hlocal, hnone, hkind⟩ | ⟨hlocal, w, hw, hvalue⟩ := hcases
  · exact .inl htoken
  · exact .inr (.inl ⟨hlocal, (hnone ▸ hperm).nil_eq.symm, hkind⟩)
  · exact .inr
      (.inr ⟨hlocal, w, hperm.mem_iff.1 hw, fun value hw => h.mayBeToken (hvalue value hw)⟩)

theorem mayHoldToken_of (h : r.Rearranges r') (hhold : r.mayHoldToken carriers i = true) :
    r'.mayHoldToken carriers i = true := by
  obtain ⟨chain, hchain, hholds⟩ := mayHoldToken_iff_exists_chain.1 hhold
  exact mayHoldToken_iff_exists_chain.2 ⟨chain, hchain.imp fun _ _ => h.copies, h.holds hholds⟩

end Resolution.Rearranges

namespace Resolution

/-- A binding may hold a context just when a chain of copies leads from it to one that does so on
its own account. A chain without repetitions will do, following the copies depth first with as many
nested calls as there are bindings finds the same, and the order of the writes does not matter. -/
theorem mayHoldToken_chain (r : Resolution) (carriers : Carriers) (i : Nat) :
    (r.mayHoldToken carriers i = true ↔ ∃ chain, r.HoldsThrough carriers i chain) ∧
    (r.mayHoldToken carriers i = true → ∃ chain, r.HoldsThrough carriers i chain ∧
      (i :: chain).Nodup) ∧
    (∀ n, r.bindings.length < n →
      ∃ seen, r.enter carriers n i ∅ = some (r.mayHoldToken carriers i, seen)) ∧
    ∀ r', r.Rearranges r' → r'.mayHoldToken carriers i = r.mayHoldToken carriers i := by
  refine ⟨mayHoldToken_iff_exists_chain, fun hhold => ?_, fun n =>
    exists_enter_eq carriers i, fun r' h => ?_⟩
  · obtain ⟨chain, hchain⟩ := mayHoldToken_iff_exists_chain.1 hhold
    exact hchain.exists_nodup
  · exact Bool.eq_iff_iff.2 ⟨h.symm.mayHoldToken_of, h.mayHoldToken_of⟩

def copiesInCircles : String :=
  "package p\nfunc f() \x7b\n\tx := g()\n\ty := x\n\tx = y\n\ta := 1\n\tb := a\n\ta = b\n\x7d\n"

theorem mayHoldToken_chain_copiesInCircles :
    let r := Resolution.ofFile (parse copiesInCircles)
    let r' : Resolution :=
      { r with bindings := r.bindings.map fun b : Binding => { b with writes := b.writes.reverse } }
    (∃ chain, r.HoldsThrough [] 2 chain) ∧ (¬ ∃ chain, r.HoldsThrough [] 4 chain) ∧
      (∃ seen, r.enter [] 6 4 ∅ = some (false, seen)) ∧ r'.mayHoldToken [] 2 = true := by
  have hanswers : (Resolution.ofFile (parse copiesInCircles)).mayHoldToken [] 2 = true ∧
      (Resolution.ofFile (parse copiesInCircles)).mayHoldToken [] 4 = false ∧
      (Resolution.ofFile (parse copiesInCircles)).bindings.length = 5 := by
    decide +kernel
  generalize Resolution.ofFile (parse copiesInCircles) = r at hanswers ⊢
  intro r r'
  obtain ⟨hholds, hplain, hlength⟩ := hanswers
  have hreversed : r.Rearranges r' :=
    ⟨rfl, List.forall₂_map_right_iff.2 <| List.forall₂_same.2 fun b _ =>
      ⟨b.writes.reverse, b.writes.reverse_perm.symm, rfl⟩⟩
  obtain ⟨hchain, -, -, hrearranged⟩ := mayHoldToken_chain r [] 2
  obtain ⟨hnochain, -, hdepthFirst, -⟩ := mayHoldToken_chain r [] 4
  refine ⟨hchain.1 hholds, fun h => ?_, ?_, (hrearranged r' hreversed).trans hholds⟩
  · exact absurd (hplain ▸ hnochain.2 h) Bool.false_ne_true
  · rw [← hplain]
    exact hdepthFirst 6 (hlength ▸ by decide)

end Resolution

end Handoff

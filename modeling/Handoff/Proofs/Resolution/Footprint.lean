import Handoff.Proofs.Resolution.Package
import Handoff.Proofs.Syntax.Alignment

/-!
# What resolving a declaration changes

The second round of a resolution visits one declaration after the other. A visit adds bindings whose
scopes lie in the declaration, and it writes, from inside the declaration, to bindings that the
declaration mentions. All else stays: the scope of the package, what the file shows of results and
fields, and the type of every binding that is not written.

## Main definitions

* `Binding.Grows`: a binding after writes in some subtrees.
* `Resolver.Within`: a resolver after steps in some subtrees.
* `Resolver.Entered`: the first round has declared the names of a spec.

## Main statement

* `Resolver.Within.visitDeclaration`: a visit stays in the declaration that is visited.
-/

namespace Handoff

open Syntax Node

def Syntax.Kind.isWriting : Kind → Bool
  | .shortVarDeclaration | .assignmentStatement | .varSpec | .constSpec => true
  | _ => false

/-- A write in some subtrees; the written value stands in the statement that writes it. -/
structure Write.Within (region : List Node) (w : Write) : Prop where
  site : w.site ∈ preorderAll region
  kind : w.site.kind.isWriting = true
  value : ∀ v, w.value = some v → v ∈ w.site.preorder

structure Binding.Grows (region : List Node) (b b' : Binding) : Prop where
  view : b'.view = b.view
  written : ∃ late, b'.writes = b.writes ++ late ∧ ∀ w ∈ late, w.Within region
  typed : ∀ t, b.type = some t → b'.type = some t
  unwritten : b'.writes = b.writes → b'.type = b.type

theorem Write.Within.mono {region region' : List Node} {w : Write} (h : w.Within region)
    (hsub : preorderAll region ⊆ preorderAll region') : w.Within region' :=
  ⟨hsub h.site, h.kind, h.value⟩

namespace Binding.Grows

variable {region region' : List Node} {b b' b'' : Binding}

theorem refl (b : Binding) : b.Grows region b :=
  ⟨rfl, ⟨[], (List.append_nil _).symm, fun _ hw => absurd hw List.not_mem_nil⟩, fun _ ht =>
    ht, fun _ => rfl⟩

theorem trans (h : b.Grows region b') (h' : b'.Grows region b'') : b.Grows region b'' := by
  obtain ⟨late, hlate, hwithin⟩ := h.written
  obtain ⟨later, hlater, hwithin'⟩ := h'.written
  refine ⟨h'.view.trans h.view,
    ⟨late ++ later, by rw [hlater, hlate, List.append_assoc], fun w hw => ?_⟩, fun t ht =>
      h'.typed t (h.typed t ht), fun hsame => ?_⟩
  · exact (List.mem_append.1 hw).elim (hwithin w) (hwithin' w)
  · rw [hlater, hlate, List.append_assoc, List.append_right_eq_self,
      List.append_eq_nil_iff] at hsame
    obtain ⟨rfl, rfl⟩ := hsame
    rw [h'.unwritten (by rw [hlater, List.append_nil]),
      h.unwritten (by rw [hlate, List.append_nil])]

theorem mono (h : b.Grows region b') (hsub : preorderAll region ⊆ preorderAll region') :
    b.Grows region' b' := by
  obtain ⟨late, hlate, hwithin⟩ := h.written
  exact ⟨h.view, ⟨late, hlate, fun w hw => (hwithin w hw).mono hsub⟩, h.typed, h.unwritten⟩

/-- A write, which may give a type to a binding without one. -/
theorem write {w : Write} (hw : w.Within region) (type : Option TypeName) (b : Binding) :
    b.Grows region { b with type := b.type.or type, writes := b.writes ++ [w] } where
  view := rfl
  written := ⟨[w], rfl, fun _ hmem => List.mem_singleton.1 hmem ▸ hw⟩
  typed t ht := by rw [ht, Option.some_or]
  unwritten hsame := by simp at hsame

end Binding.Grows

namespace Resolver

variable {region region' : List Node} {n site : Node} {base s t : Resolver} {depth d i : Nat}
  {owner : Option Node}

/-- A resolver that entered some subtrees with the scope of the package open, after steps in
them. -/
structure Within (region : List Node) (base : Resolver) (depth : Nat) (s : Resolver) : Prop where
  frames : ∃ inside, s.frames = inside ++ base.frames ∧ inside.length + 1 = depth ∧
    ∀ frame ∈ inside, frame.scope ∈ preorderAll region
  root_eq : s.facts.root = base.facts.root
  imports : s.facts.imports = base.facts.imports
  results : s.facts.results = base.facts.results
  fieldTypes : s.facts.fieldTypes = base.facts.fieldTypes
  uses : base.facts.uses ⊆ s.facts.uses
  kept : ∀ i b, base.facts.bindings[i]? = some b → ∃ b', s.facts.bindings[i]? = some b' ∧
    b.Grows region b' ∧ (b'.writes ≠ b.writes → ∃ n ∈ preorderAll region, (n.id, i) ∈ s.facts.uses)
  length_le : base.facts.bindings.length ≤ s.facts.bindings.length
  added : ∀ i b, base.facts.bindings.length ≤ i → s.facts.bindings[i]? = some b →
    b.scope ∈ preorderAll region ∧ ∀ w ∈ b.writes, w.Within region

/-- The first round has declared the names of a spec. -/
def Entered (s : Resolver) (spec : Node) : Prop :=
  ∀ name ∈ spec.inField .name, name.text ≠ "_" → ∀ i, s.lookup name.text = some i →
    (name.id, i) ∈ s.facts.uses ∧ ∃ b, s.facts.bindings[i]? = some b ∧
      (s.facts.imports.declaredType spec = none ∨ ∃ t, b.type = some t)

namespace Within

theorem refl (base : Resolver) : Within region base 1 base where
  frames := ⟨[], rfl, rfl, fun _ hf => absurd hf List.not_mem_nil⟩
  root_eq := rfl
  imports := rfl
  results := rfl
  fieldTypes := rfl
  uses := List.Subset.refl _
  kept _ b hb := ⟨b, hb, .refl b, fun hne => absurd rfl hne⟩
  length_le := Nat.le_refl _
  added i b hi hb := by
    rw [List.getElem?_eq_none hi] at hb
    cases hb

/-- Outside of all functions, the package is the only open scope. -/
theorem frames_eq (h : Within region base 1 s) : s.frames = base.frames := by
  obtain ⟨inside, hframes, hlength, -⟩ := h.frames
  rw [hframes, List.eq_nil_of_length_eq_zero (Nat.succ.inj hlength), List.nil_append]

/-! ### Single steps -/

theorem enter (h : Within region base depth s) (hn : n ∈ preorderAll region) :
    Within region base (depth + 1) (s.enter n) := by
  obtain ⟨inside, hframes, hlength, hinside⟩ := h.frames
  refine { h with frames := ⟨⟨n, []⟩ :: inside, ?_, ?_, ?_⟩ }
  · rw [Resolver.enter, hframes, List.cons_append]
  · rw [List.length_cons, hlength]
  · exact List.forall_mem_cons.2 ⟨hn, hinside⟩

theorem leave (h : Within region base (d + 2) s) : Within region base (d + 1) s.leave := by
  obtain ⟨inside, hframes, hlength, hinside⟩ := h.frames
  cases inside with
  | nil => cases hlength
  | cons frame inside =>
    refine { h with
      frames := ⟨inside, ?_, Nat.succ.inj hlength, (List.forall_mem_cons.1 hinside).2⟩ }
    rw [Resolver.leave, hframes]
    rfl

theorem use (h : Within region base depth s) (n : Node) (i : Nat) :
    Within region base depth (s.use n i) :=
  { h with
    uses := fun _ he => List.mem_cons_of_mem _ (h.uses he)
    kept := fun j b hb => by
      obtain ⟨b', hb', hgrows, hmention⟩ := h.kept j b hb
      refine ⟨b', hb', hgrows, fun hne => ?_⟩
      obtain ⟨m, hm, hmem⟩ := hmention hne
      exact ⟨m, hm, List.mem_cons_of_mem _ hmem⟩ }

/-- A change to a binding that the subtrees mention. -/
theorem modify {f : Binding → Binding} (h : Within region base depth s)
    (hf : ∀ b, s.facts.bindings[i]? = some b → b.Grows region (f b))
    (hmention : ∃ n ∈ preorderAll region, (n.id, i) ∈ s.facts.uses) :
    Within region base depth (s.modify i f) := by
  have hget : ∀ j, (s.modify i f).facts.bindings[j]? =
      (s.facts.bindings[j]?).map fun b => if i = j then f b else b := fun j => by
    simp only [Resolver.modify, List.getElem?_modify, Functor.map]
  refine { h with kept := fun j b hb => ?_, length_le := ?_, added := fun j b hj hb => ?_ }
  · obtain ⟨b', hb', hgrows, hmentioned⟩ := h.kept j b hb
    rw [hget, hb', Option.map_some]
    refine ⟨_, rfl, ?_⟩
    by_cases hij : i = j
    · obtain rfl := hij
      rw [if_pos rfl]
      exact ⟨hgrows.trans (hf b' hb'), fun _ => hmention⟩
    · rw [if_neg hij]
      exact ⟨hgrows, hmentioned⟩
  · rw [Resolver.modify, List.length_modify]
    exact h.length_le
  · rw [hget, Option.map_eq_some_iff] at hb
    obtain ⟨a, ha, rfl⟩ := hb
    obtain ⟨hscope, hwrites⟩ := h.added j a hj ha
    by_cases hij : i = j
    · obtain rfl := hij
      rw [if_pos rfl]
      obtain ⟨late, hlate, hwithin⟩ := (hf a ha).written
      have hview : (f a).scope = a.scope := congrArg Binding.View.scope (hf a ha).view
      refine ⟨hview ▸ hscope, fun w hw => ?_⟩
      rw [hlate] at hw
      exact (List.mem_append.1 hw).elim (hwrites w) (hwithin w)
    · rw [if_neg hij]
      exact ⟨hscope, hwrites⟩

/-- Writes to a binding that the subtrees mention. -/
theorem write {value : Option Node} (h : Within region base depth s)
    (hsite : site ∈ preorderAll region) (hkind : site.kind.isWriting = true)
    (hvalue : ∀ v, value = some v → v ∈ site.preorder)
    (hmention : ∃ n ∈ preorderAll region, (n.id, i) ∈ s.facts.uses) (type : Option TypeName) :
    Within region base depth ((s.refineType i type).recordWrite i site value) := by
  have hwithin : ∀ conditional, Write.Within region ⟨site, value, conditional⟩ := fun _ =>
    ⟨hsite, hkind, hvalue⟩
  have hmodify := h.modify (i := i) (f := fun b => { b with
    type := b.type.or type
    writes := b.writes ++ [⟨site, value, isConditional s.facts.root site b.scope⟩] })
    (fun b _ => .write (hwithin _) type b) hmention
  have heq : (s.refineType i type).recordWrite i site value = s.modify i fun b => { b with
      type := b.type.or type
      writes := b.writes ++ [⟨site, value, isConditional s.facts.root site b.scope⟩] } := by
    simp only [Resolver.refineType, Resolver.recordWrite, Resolver.modify, List.modify_modify_eq]
    rfl
  rwa [heq]

/-- Writes that leave the type alone. -/
theorem recordWrite {value : Option Node} (h : Within region base depth s)
    (hsite : site ∈ preorderAll region) (hkind : site.kind.isWriting = true)
    (hvalue : ∀ v, value = some v → v ∈ site.preorder)
    (hmention : ∃ n ∈ preorderAll region, (n.id, i) ∈ s.facts.uses) :
    Within region base depth (s.recordWrite i site value) := by
  refine h.modify (fun b _ => ?_) hmention
  have hwithin : Write.Within region ⟨site, value, isConditional s.facts.root site b.scope⟩ :=
    ⟨hsite, hkind, hvalue⟩
  have hgrows := Binding.Grows.write hwithin none b
  rwa [Option.or_none] at hgrows

/-- A declaration in a scope of the subtrees stays within them. -/
theorem declare (h : Within region base (d + 2) s) (owner : Option Node) (n : Node)
    (kind : BindingKind) (type : Option TypeName) :
    Within region base (d + 2) (s.declare owner n kind type) := by
  obtain ⟨inside, hframes, hlength, hinside⟩ := h.frames
  cases inside with
  | nil => cases hlength
  | cons frame inside =>
    obtain ⟨hframe, hinside⟩ := List.forall_mem_cons.1 hinside
    have hscope : s.scope = frame.scope := by rw [Resolver.scope, hframes]; rfl
    -- a scope of the subtrees is the innermost, so the frames of `base` stay as they are
    have heq : s.declare owner n kind type = Resolver.use
        ⟨{ s.facts with
            bindings := s.facts.bindings ++ [⟨n.text, kind, n, owner, s.scope, type, []⟩] },
          { frame with names := (n.text, s.facts.bindings.length) :: frame.names } ::
            (inside ++ base.frames)⟩
        n s.facts.bindings.length := by
      rw [Resolver.declare, hframes]
      rfl
    rw [heq]
    refine Within.use ?_ n _
    refine ⟨?_, h.root_eq, h.imports, h.results, h.fieldTypes, h.uses, fun i b hb =>
      ?_, ?_, fun i b hi hb => ?_⟩
    · exact ⟨{ frame with names := (n.text, s.facts.bindings.length) :: frame.names } :: inside,
        rfl, hlength, List.forall_mem_cons.2 ⟨hframe, hinside⟩⟩
    · obtain ⟨b', hb', hgrows⟩ := h.kept i b hb
      exact ⟨b', List.getElem?_append_left (List.getElem?_eq_some_iff.1 hb').1 ▸ hb', hgrows⟩
    · rw [List.length_append]
      exact Nat.le_trans h.length_le (Nat.le_add_right ..)
    · by_cases hlt : i < s.facts.bindings.length
      · rw [List.getElem?_append_left hlt] at hb
        exact h.added i b hi hb
      · rw [List.getElem?_append_right (Nat.le_of_not_lt hlt), List.getElem?_singleton] at hb
        split at hb
        · cases hb
          exact ⟨hscope ▸ hframe, fun _ hw => absurd hw List.not_mem_nil⟩
        · cases hb

/-- The declaring name mentions the new binding. -/
theorem mention_declare (owner : Option Node) (kind : BindingKind) (type : Option TypeName)
    (hn : n ∈ preorderAll region) :
    ∃ m ∈ preorderAll region,
      (m.id, s.facts.bindings.length) ∈ (s.declare owner n kind type).facts.uses :=
  ⟨n, hn, List.mem_cons_self ..⟩

theorem declareAll (h : Within region base (d + 2) s) (kind : BindingKind) (type : Option TypeName)
    (names : List Node) : Within region base (d + 2) (s.declareAll owner kind type names) := by
  unfold Resolver.declareAll
  induction names generalizing s with
  | nil => exact h
  | cons name names ih =>
    rw [List.foldl_cons]
    refine ih ?_
    split
    · exact h
    · exact h.declare owner name kind type

theorem declareParameters (h : Within region base (d + 2) s) (f : Node) :
    Within region base (d + 2) (s.declareParameters f) := by
  unfold Resolver.declareParameters
  dsimp only
  generalize List.flatMap Node.parameters _ = parameters
  induction parameters generalizing s with
  | nil => exact h
  | cons p ps ih =>
    rw [List.foldl_cons]
    exact ih (h.declareAll ..)

theorem recordUse (h : Within region base depth s) (n : Node) :
    Within region base depth (s.recordUse n) := by
  unfold Resolver.recordUse
  split
  · exact h
  · split
    · exact h.use ..
    · exact h

/-! ### Statements -/

theorem shortTarget {index : Nat} (h : Within region base (d + 2) s)
    (hsite : site ∈ preorderAll region) (hkind : site.kind = .shortVarDeclaration)
    (hn : n ∈ preorderAll region) :
    Within region base (d + 2) (s.shortTarget owner site index n) := by
  have hwriting : site.kind.isWriting = true := by rw [hkind]; rfl
  unfold Resolver.shortTarget
  split
  · exact h
  · dsimp only
    split
    · exact (h.use ..).recordWrite hsite hwriting (fun _ => mem_of_valuesIn)
        ⟨n, hn, List.mem_cons_self ..⟩
    · exact (h.declare ..).recordWrite hsite hwriting (fun _ => mem_of_valuesIn)
        (mention_declare _ _ _ hn)

/-- A name of a spec in a function. -/
theorem specName {spec : Node} {index : Nat} (h : Within region base (d + 2) s)
    (hbase : base.frames.length = 1) (hspec : spec ∈ preorderAll region)
    (hvalue : isValueSpec spec = true) (hn : n ∈ preorderAll region) :
    Within region base (d + 2) (s.specName owner spec index n) := by
  have hwriting : spec.kind.isWriting = true := by
    rcases isValueSpec_iff.1 hvalue with hk | hk <;> rw [hk] <;> rfl
  have hdepth : s.frames.length ≠ 1 := by
    obtain ⟨inside, hframes, hlength, -⟩ := h.frames
    rw [hframes, List.length_append, hbase, hlength]
    omega
  unfold Resolver.specName
  split
  · exact h
  · dsimp only
    split
    · exact h.declare ..
    · exact (h.declare ..).recordWrite hspec hwriting (fun _ => mem_of_valuesIn)
        (mention_declare _ _ _ hn)

theorem specNames {spec : Node} (h : Within region base (d + 2) s) (hbase : base.frames.length = 1)
    (hspec : spec ∈ preorderAll region) (hvalue : isValueSpec spec = true) :
    Within region base (d + 2) (s.specNames owner spec) := by
  unfold Resolver.specNames
  have hnames : ∀ e ∈ (spec.inField .name).zipIdx, e.1 ∈ preorderAll region := fun e he => by
    have hmem : e.1 ∈ spec.inField .name := (List.mem_zipIdx' he).2 ▸ List.getElem_mem _
    exact mem_preorderAll_of_mem hspec (preorder_of_inner (inner_of_mem_filter hmem))
  generalize (spec.inField .name).zipIdx = names at hnames
  induction names generalizing s with
  | nil => exact h
  | cons e names ih =>
    obtain ⟨he, hnames⟩ := List.forall_mem_cons.1 hnames
    exact ih (h.specName hbase hspec hvalue he) hnames

theorem recordAssignment (h : Within region base depth s) (hsite : site ∈ preorderAll region)
    (hkind : site.kind = .assignmentStatement) :
    Within region base depth (s.recordAssignment site) := by
  unfold Resolver.recordAssignment
  split
  · exact h
  · dsimp only
    have htargets : ∀ e ∈ (valuesIn site .left).zipIdx, e.1 ∈ preorderAll region := fun e he =>
      mem_preorderAll_of_mem hsite
        (valuesIn_subset .left ((List.mem_zipIdx' he).2 ▸ List.getElem_mem _))
    generalize (valuesIn site .left).length = count
    generalize (valuesIn site .left).zipIdx = targets at htargets
    induction targets generalizing s with
    | nil => exact h
    | cons e targets ih =>
      obtain ⟨he, htargets⟩ := List.forall_mem_cons.1 htargets
      rw [List.foldl_cons]
      refine ih ?_ htargets
      split
      · exact h
      · split
        · exact h
        next i huse =>
          exact h.write hsite (by rw [hkind]; rfl) (fun _ => mem_of_valuesIn)
            ⟨_, mem_preorderAll_of_mem he (bare_mem_preorder _), mem_of_lookup huse⟩ _

/-! ### The names of the package -/

/-- A name of a spec of the package: written if the spec has values, and of known type otherwise. -/
theorem specName_package {spec : Node} {index : Nat} (h : Within region base 1 s)
    (hbase : base.frames.length = 1) (hspec : spec ∈ preorderAll region)
    (hvalue : isValueSpec spec = true) (hn : n ∈ spec.inField .name)
    (hentered : Entered base spec) : Within region base 1 (s.specName owner spec index n) := by
  have hwriting : spec.kind.isWriting = true := by
    rcases isValueSpec_iff.1 hvalue with hk | hk <;> rw [hk] <;> rfl
  have hmem := mem_preorderAll_of_mem hspec (preorder_of_inner (inner_of_mem_filter hn))
  unfold Resolver.specName
  split
  · exact h
  next hname =>
    have hdepth : s.frames.length = 1 := by rw [h.frames_eq, hbase]
    simp only [if_pos hdepth]
    split
    next i hi =>
      rw [Resolver.lookup, h.frames_eq] at hi
      obtain ⟨huse, b₀, hb₀, htype⟩ := hentered n hn hname i hi
      have hmention : ∃ m ∈ preorderAll region, (m.id, i) ∈ s.facts.uses := ⟨n, hmem, h.uses huse⟩
      split
      next hempty =>
        -- without values there is only the declared type, which the name has had since round one
        have hnone :
            s.facts.typeOfTarget (valuesIn spec .value) index
              (spec.inField .name).length = none := by
          have hpos : 0 < (spec.inField .name).length := List.length_pos_of_mem hn
          rw [List.isEmpty_iff.1 hempty, Resolution.typeOfTarget, List.length_nil,
            if_neg (Nat.ne_of_lt hpos)]
          rfl
        rw [hnone, Option.or_none, h.imports]
        refine h.modify (fun b hb => ?_) hmention
        have hsame : b.type.or (base.facts.imports.declaredType spec) = b.type := by
          obtain ⟨b', hb', hgrows, -⟩ := h.kept i b₀ hb₀
          obtain rfl := Option.some.inj (hb.symm.trans hb')
          obtain hnone | ⟨t, ht⟩ := htype
          · rw [hnone, Option.or_none]
          · rw [hgrows.typed t ht, Option.some_or]
        rw [hsame]
        exact .refl b
      next => exact h.write hspec hwriting (fun _ => mem_of_valuesIn) hmention _
    next => exact h

/-- A spec of the package, whose names the first round has declared, stays within the subtrees. -/
theorem specNames_package {spec : Node} (h : Within region base 1 s)
    (hbase : base.frames.length = 1) (hspec : spec ∈ preorderAll region)
    (hvalue : isValueSpec spec = true) (hentered : Entered base spec) :
    Within region base 1 (s.specNames owner spec) := by
  unfold Resolver.specNames
  have hnames : ∀ e ∈ (spec.inField .name).zipIdx, e.1 ∈ spec.inField .name := fun e he =>
    (List.mem_zipIdx' he).2 ▸ List.getElem_mem _
  generalize (spec.inField .name).zipIdx = names at hnames
  induction names generalizing s with
  | nil => exact h
  | cons e names ih =>
    obtain ⟨he, hnames⟩ := List.forall_mem_cons.1 hnames
    exact ih (h.specName_package hbase hspec hvalue he hentered) hnames

/-! ### Visits -/

theorem likeness_self (region : List Node) : Likeness fun n n' => n = n' ∧
    n ∈ preorderAll region := by
  refine .of_children ?_ ?_
  · rintro n _ ⟨rfl, -⟩
    exact ⟨rfl, rfl, fun _ => rfl⟩
  · rintro n _ ⟨rfl, hn⟩
    exact List.forall₂_same.2 fun c hc => ⟨rfl, mem_preorderAll_of_mem hn (child_mem_preorder hc)⟩

theorem eq_of_rel_self {owner owner' : Option Node}
    (h : Option.Rel (fun n n' => n = n' ∧ n ∈ preorderAll region) owner owner') :
    owner = owner' := by
  cases h with
  | none => rfl
  | some h => rw [h.1]

/-- Every step of a visit stays within the subtrees that are visited. -/
theorem lockstep (region : List Node) (hbase : base.frames.length = 1) :
    Lockstep (fun n n' => n = n' ∧ n ∈ preorderAll region) fun d s t =>
      s = t ∧ Within region base d s where
  enter := by
    rintro n _ d s _ ⟨rfl, hn⟩ - ⟨rfl, h⟩
    exact ⟨rfl, h.enter hn⟩
  leave := by
    rintro d s _ ⟨rfl, h⟩
    exact ⟨rfl, h.leave⟩
  declareParameters := by
    rintro f _ d s _ ⟨rfl, -⟩ ⟨rfl, h⟩
    exact ⟨rfl, h.declareParameters f⟩
  declareTargets := by
    rintro targets _ owner owner' d s _ ⟨rfl, -⟩ howner ⟨rfl, h⟩
    obtain rfl := eq_of_rel_self howner
    exact ⟨rfl, h.declareAll ..⟩
  recordUse := by
    rintro n _ d s _ ⟨rfl, -⟩ - ⟨rfl, h⟩
    exact ⟨rfl, h.recordUse n⟩
  shortTarget := by
    rintro site _ ident _ owner owner' index d s _ ⟨rfl, hsite⟩ hkind ⟨rfl, hn⟩ - - howner ⟨rfl, h⟩
    obtain rfl := eq_of_rel_self howner
    exact ⟨rfl, h.shortTarget hsite hkind hn⟩
  specNames := by
    rintro spec _ owner owner' d s _ ⟨rfl, hspec⟩ hvalue howner ⟨rfl, h⟩
    obtain rfl := eq_of_rel_self howner
    exact ⟨rfl, h.specNames hbase hspec hvalue⟩
  recordAssignment := by
    rintro site _ d s _ ⟨rfl, hsite⟩ hkind ⟨rfl, h⟩
    exact ⟨rfl, h.recordAssignment hsite hkind⟩

/-- A visit stays in the declaration that is visited. -/
theorem visitDeclaration {declaration : Node} (wf : declaration.WellFormed)
    (hbody : hasBody declaration = true) (hbase : base.frames.length = 1)
    (hentered : declaration.kind = .varDeclaration ∨ declaration.kind = .constDeclaration →
      ∀ spec ∈ declaration.children, isValueSpec spec = true → Entered base spec) :
    Within [declaration] base 1 (visit none declaration base) := by
  have hmem : declaration ∈ preorderAll [declaration] := by simp
  exact (Lockstep.visitDeclaration (likeness_self [declaration]) (lockstep [declaration] hbase)
    (fun {spec _ _ _} hkind hchild hspec hvalue h => by
      obtain ⟨rfl, hspec⟩ := hspec
      obtain ⟨rfl, h⟩ := h
      exact ⟨rfl, h.specNames_package hbase hspec hvalue (hentered hkind spec hchild hvalue)⟩)
    wf ⟨rfl, hmem⟩ hbody ⟨rfl, .refl base⟩).2

/-- Steps in one part of a file and then in another. -/
theorem trans (h : Within region base 1 s) (h' : Within region' s 1 t) :
    Within (region ++ region') base 1 t := by
  have hall : preorderAll (region ++ region') = preorderAll region ++ preorderAll region' := by
    simp [preorderAll_eq_flatMap]
  have hleft : preorderAll region ⊆ preorderAll (region ++ region') :=
    hall ▸ List.subset_append_left ..
  have hright : preorderAll region' ⊆ preorderAll (region ++ region') :=
    hall ▸ List.subset_append_right ..
  refine ⟨⟨[], ?_, rfl, fun _ hf => absurd hf List.not_mem_nil⟩, h'.root_eq.trans h.root_eq,
    h'.imports.trans h.imports, h'.results.trans h.results, h'.fieldTypes.trans h.fieldTypes,
    List.Subset.trans h.uses h'.uses, fun i b hb => ?_, Nat.le_trans h.length_le h'.length_le,
      fun i b hi hb => ?_⟩
  · rw [h'.frames_eq, h.frames_eq, List.nil_append]
  · obtain ⟨b', hb', hgrows, hmention⟩ := h.kept i b hb
    obtain ⟨b'', hb'', hgrows', hmention'⟩ := h'.kept i b' hb'
    refine ⟨b'', hb'', (hgrows.mono hleft).trans (hgrows'.mono hright), fun hne => ?_⟩
    by_cases hsame : b'.writes = b.writes
    · obtain ⟨n, hn, hmem⟩ := hmention' fun heq => hne (heq.trans hsame)
      exact ⟨n, hright hn, hmem⟩
    · obtain ⟨n, hn, hmem⟩ := hmention hsame
      exact ⟨n, hleft hn, h'.uses hmem⟩
  · by_cases hlt : i < s.facts.bindings.length
    · obtain ⟨b', hb', hgrows, -⟩ := h'.kept i _ (List.getElem?_eq_getElem hlt)
      obtain rfl := Option.some.inj (hb.symm.trans hb')
      obtain ⟨hscope, hwrites⟩ := h.added i _ hi (List.getElem?_eq_getElem hlt)
      obtain ⟨late, hlate, hwithin⟩ := hgrows.written
      have hview : b.scope = _ := congrArg Binding.View.scope hgrows.view
      refine ⟨hleft (hview ▸ hscope), fun w hw => ?_⟩
      rw [hlate] at hw
      exact (List.mem_append.1 hw).elim (fun hw => (hwrites w hw).mono hleft) fun hw =>
        (hwithin w hw).mono hright
    · obtain ⟨hscope, hwrites⟩ := h'.added i b (Nat.le_of_not_lt hlt) hb
      exact ⟨hright hscope, fun w hw => (hwrites w hw).mono hright⟩

/-- What was declared stays declared. -/
theorem entered {spec : Node} (h : Within region base 1 s) (hentered : Entered base spec) :
    Entered s spec := by
  intro name hname hblank i hi
  rw [lookup, h.frames_eq] at hi
  obtain ⟨huse, b, hb, htype⟩ := hentered name hname hblank i hi
  obtain ⟨b', hb', hgrows, -⟩ := h.kept i b hb
  refine ⟨h.uses huse, b', hb', ?_⟩
  rw [h.imports]
  exact htype.imp_right fun ⟨t, ht⟩ => ⟨t, hgrows.typed t ht⟩

end Within

end Resolver

end Handoff

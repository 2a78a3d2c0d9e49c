import Handoff.Syntax.Node
import Mathlib.Data.List.Nodup
import Mathlib.Data.List.Pairwise

/-!
# Trees with distinct numbers

In a tree whose nodes have distinct numbers, a number determines its node, and the path that
`Node.ancestors` finds by number is the path in the tree.

## Main definitions

* `Node.inner`: the nodes strictly inside a node.
* `Node.Path`: a path from one node down to another, with the nodes above the latter, innermost
  first.
* `Node.Distinct`: no two nodes of a tree have the same number.
* `Node.WellFormed`: numbers are distinct, children lie one after the other in the span of their
  parent, statements stand only where a statement or a function holds them, and what starts with a
  keyword or a bracket holds its parts after it.
* `Node.IsFile`: a well-formed tree whose root is a file.
-/

namespace Handoff.Syntax

namespace Kind

/-- Tokens, comments and identifiers, which have no parts. -/
def isLeaf : Kind → Bool
  | .token _ | .comment | .identifier => true
  | _ => false

def isStatement : Kind → Bool
  | .sourceFile | .constDeclaration | .varDeclaration | .typeDeclaration | .block | .emptyStatement
  | .expressionStatement | .sendStatement | .receiveStatement | .incStatement | .decStatement
  | .assignmentStatement | .shortVarDeclaration | .labeledStatement | .fallthroughStatement
  | .breakStatement | .continueStatement | .gotoStatement | .returnStatement | .goStatement
  | .deferStatement | .ifStatement | .forStatement | .forClause | .rangeClause
  | .expressionSwitchStatement | .expressionCase | .defaultCase | .typeSwitchStatement | .typeCase
  | .selectStatement | .communicationCase => true
  | _ => false

def isClause : Kind → Bool
  | .expressionCase | .defaultCase | .typeCase | .communicationCase => true
  | _ => false

def isPlain (k : Kind) : Bool := !k.isStatement

def isItem (k : Kind) : Bool := !k.isClause

def isAny (_ : Kind) : Bool := true

/-- Whether a kind is one of some kinds and not that of comments, of which the grammar makes
none. -/
def isAmong (K : Kind → Bool) : Kind → Bool
  | .comment => false
  | k => K k

/-- Statements and functions: statements may stand directly below them. -/
def holdsStatements (k : Kind) : Bool := k.isStatement || k.isFunction

/-- What starts with a keyword or a bracket of its own and holds all else after it. -/
def isOpened : Kind → Bool
  | .functionDeclaration | .methodDeclaration | .varDeclaration | .constDeclaration | .funcLiteral
  | .goStatement | .argumentList => true
  | _ => false

/-- Identifiers, and the commas between them in a list of names. -/
@[simp]
def isName (k : Kind) : Bool := k == .identifier || k == .token ","

/-- Specs of variables and constants, function literals, calls, and the statements that start or
defer a call: what stands in them is known. -/
def isShaped : Kind → Bool
  | .varSpec | .constSpec | .funcLiteral | .callExpression | .goStatement | .deferStatement => true
  | _ => false

def isBranch (k : Kind) : Bool := !k.isLeaf && !k.isShaped

/-- Branches whose first child is of no account. -/
def isOrdinary (k : Kind) : Bool := k.isBranch && !k.isOpened

theorem isItem_of_isPlain {k : Kind} (h : k.isPlain = true) : k.isItem = true := by
  cases k <;> simp_all [isPlain, isItem, isStatement, isClause]

theorem isAmong_iff {K : Kind → Bool} {k : Kind} : k.isAmong K = true ↔
    k ≠ .comment ∧ K k = true := by
  cases k <;> simp [isAmong]

theorem eq_of_isAmong {k l : Kind} (h : k.isAmong (· == l) = true) : k = l :=
  eq_of_beq (isAmong_iff.1 h).2

theorem isAmong_of_not_isLeaf {K : Kind → Bool} {k : Kind} (hleaf : k.isLeaf = false)
    (h : K k = true) : k.isAmong K = true := by
  refine isAmong_iff.2 ⟨?_, h⟩
  rintro rfl
  cases hleaf

theorem isLeaf_of_isName {k : Kind} (h : k.isName = true) : k.isLeaf = true := by
  obtain rfl | rfl : k = .identifier ∨ k = .token "," := by simpa using h
  · rfl
  · rfl

end Kind

def Field.allows : Field → Kind → Bool
  | .left, k | .value, k => k.isPlain
  | .initializer, k => k.isItem
  | .arguments, k => k == .argumentList
  | .parameters, k => k == .parameterList
  | .body, k => k == .block || k == .literalValue
  | _, _ => true

def Field.allowsPlain : Field → Bool
  | .arguments | .parameters | .body => false
  | _ => true

theorem Field.allows_of_isPlain {k : Kind} (h : k.isPlain = true) {f : Field}
    (hf : f.allowsPlain = true) : f.allows k = true := by
  cases f <;> first | rfl | exact h | exact Kind.isItem_of_isPlain h | cases hf

/-- The kinds and fields of a function literal's children: all but its keyword stand in the
signature, and one is the body. -/
structure HasSignature (children : List (Kind × Option Field)) : Prop where
  body : ∃ c ∈ children, c.2 = some .body
  sole : children.Pairwise fun c k => ¬ (c.2 = some .body ∧ k.2 = some .body)
  field : ∀ c ∈ children, c.2 = some .parameters ∨ c.2 = some .result ∨ c.2 = some .body ∨
    ∃ text, c.1 = .token text

/-- What a kind demands of the kinds and fields of its children. Comments, which fill no field, are
left out. -/
def Kind.Demands : Kind → List (Kind × Option Field) → Prop
  | .varSpec, children | .constSpec, children =>
    ∀ c ∈ children, c.2 = some .name → c.1.isName = true
  | .funcLiteral, children => HasSignature children
  | .callExpression, children => children.map Prod.snd = [some .function, some .arguments] ∨
      children.map Prod.snd = [some .function, some .typeArguments, some .arguments]
  | .goStatement, children | .deferStatement, children =>
      children.Pairwise fun c k => ¬ (c.1.isNamed = true ∧ k.1.isNamed = true)
  | _, _ => True

theorem Kind.demands_of_not_isShaped {k : Kind} (h : k.isShaped = false)
    (children : List (Kind × Option Field)) : k.Demands children := by
  cases k <;> trivial

namespace Node

variable {root n m k a c p : Node}

def inner (n : Node) : List Node :=
  preorderAll n.children

theorem isPart_of_not_isLeaf (h : ¬ n.kind.isLeaf = true) : n.isPart = true := by
  unfold isPart
  cases hk : n.kind <;> simp_all [Kind.isLeaf, Kind.isNamed]

@[elab_as_elim]
theorem childrenInduction {motive : Node → Prop}
    (step : ∀ n, (∀ c ∈ n.children, motive c) → motive n) : ∀ n, motive n
  | ⟨label, children⟩ => step ⟨label, children⟩ fun c _ => childrenInduction step c
termination_by n => sizeOf n
decreasing_by
  rename_i hc
  have : sizeOf c < sizeOf children := List.sizeOf_lt_of_mem hc
  simp only [mk.sizeOf_spec]
  omega

theorem mem_preorder : m ∈ n.preorder ↔ m = n ∨ m ∈ n.inner := by
  rw [preorder_eq, List.mem_cons, inner]

theorem mem_inner : m ∈ n.inner ↔ ∃ c ∈ n.children, m ∈ c.preorder :=
  mem_preorderAll

theorem preorderAll_eq_flatMap (cs : List Node) : preorderAll cs = cs.flatMap preorder := by
  induction cs with
  | nil => simp
  | cons c cs ih => simp [ih]

theorem preorder_of_inner (h : m ∈ n.inner) : m ∈ n.preorder :=
  mem_preorder.2 (.inr h)

theorem inner_of_child (h : c ∈ n.children) : c ∈ n.inner :=
  mem_inner.2 ⟨c, h, self_mem_preorder c⟩

theorem child_mem_preorder (h : c ∈ n.children) : c ∈ n.preorder :=
  preorder_of_inner (inner_of_child h)

/-- Induction on a tree, with all nodes inside of one at hand. -/
@[elab_as_elim]
theorem innerInduction {motive : Node → Prop}
    (step : ∀ n, (∀ m ∈ n.inner, motive m) → motive n) (n : Node) : motive n := by
  have hall : ∀ m ∈ n.preorder, motive m := by
    induction n using childrenInduction with
    | step n ih =>
      have hinner : ∀ m ∈ n.inner, motive m := fun m hm => by
        obtain ⟨c, hc, hm⟩ := mem_inner.1 hm
        exact ih c hc m hm
      intro m hm
      obtain rfl | hm := mem_preorder.1 hm
      · exact step m hinner
      · exact hinner m hm
  exact hall n (self_mem_preorder n)

theorem preorder_trans (h : m ∈ n.preorder) (h' : k ∈ m.preorder) : k ∈ n.preorder := by
  induction n using childrenInduction with
  | step n ih =>
    obtain rfl | h := mem_preorder.1 h
    · exact h'
    · obtain ⟨c, hc, h⟩ := mem_inner.1 h
      exact preorder_of_inner (mem_inner.2 ⟨c, hc, ih c hc h⟩)

theorem mem_preorderAll_of_mem {cs : List Node} (h : m ∈ preorderAll cs) (hk : k ∈ m.preorder) :
    k ∈ preorderAll cs := by
  obtain ⟨c, hc, hm⟩ := mem_preorderAll.1 h
  exact mem_preorderAll.2 ⟨c, hc, preorder_trans hm hk⟩

theorem inner_of_preorder (h : m ∈ n.inner) (h' : k ∈ m.preorder) : k ∈ n.inner := by
  obtain ⟨c, hc, h⟩ := mem_inner.1 h
  exact mem_inner.2 ⟨c, hc, preorder_trans h h'⟩

theorem inner_trans (h : m ∈ n.inner) (h' : k ∈ m.inner) : k ∈ n.inner :=
  inner_of_preorder h (preorder_of_inner h')

theorem inner_of_preorder_inner (h : m ∈ n.preorder) (h' : k ∈ m.inner) : k ∈ n.inner := by
  obtain rfl | h := mem_preorder.1 h
  · exact h'
  · exact inner_trans h h'

theorem sizeOf_lt_of_inner (h : m ∈ n.inner) : sizeOf m < sizeOf n := by
  induction n using childrenInduction with
  | step n ih =>
    obtain ⟨c, hc, h⟩ := mem_inner.1 h
    have hlt : sizeOf c < sizeOf n := by
      obtain ⟨label, children⟩ := n
      have : sizeOf c < sizeOf children := List.sizeOf_lt_of_mem hc
      simp only [mk.sizeOf_spec]
      omega
    obtain rfl | h := mem_preorder.1 h
    · exact hlt
    · exact Nat.lt_trans (ih c hc h) hlt

theorem not_inner_self : n ∉ n.inner := fun h =>
  absurd (sizeOf_lt_of_inner h) (Nat.lt_irrefl _)

theorem inner_asymm (h : m ∈ n.inner) : n ∉ m.inner := fun h' =>
  not_inner_self (inner_trans h h')

/-- A path down from a node, with the nodes above its end, innermost first. -/
inductive Path : Node → Node → List Node → Prop where
  | here (n : Node) : Path n n []
  | down {n c m : Node} {above : List Node} : c ∈ n.children → Path c m above →
      Path n m (above ++ [n])

theorem Path.mem_preorder {above : List Node} (h : Path n m above) : m ∈ n.preorder := by
  induction h with
  | here => exact self_mem_preorder _
  | down hc _ ih => exact preorder_of_inner (mem_inner.2 ⟨_, hc, ih⟩)

theorem exists_path (h : m ∈ n.preorder) : ∃ above, Path n m above := by
  induction n using childrenInduction with
  | step n ih =>
    obtain rfl | h := Node.mem_preorder.1 h
    · exact ⟨[], .here _⟩
    · obtain ⟨c, hc, h⟩ := mem_inner.1 h
      obtain ⟨above, path⟩ := ih c hc h
      exact ⟨above ++ [n], .down hc path⟩

theorem Path.append {above above' : List Node} (h : Path n m above) (h' : Path m k above') :
    Path n k (above' ++ above) := by
  induction h with
  | here => simpa using h'
  | down hc _ ih => simpa using Path.down hc (ih h')

theorem Path.mem_above {above : List Node} (h : Path n m above) (ha : a ∈ above) :
    a ∈ n.preorder ∧ m ∈ a.inner := by
  induction h with
  | here => simp at ha
  | @down n c m above hc path ih =>
    obtain ha | rfl := by simpa using ha
    · exact ⟨preorder_of_inner (mem_inner.2 ⟨c, hc, (ih ha).1⟩), (ih ha).2⟩
    · exact ⟨self_mem_preorder _, mem_inner.2 ⟨c, hc, path.mem_preorder⟩⟩

/-- A path is found in the one child that has it. -/
theorem ancestorsAmong?_eq {id : Nat} {cs above : List Node} (hc : c ∈ cs)
    (others : ∀ k ∈ cs, k ≠ c → k.ancestors? id = none) (h : c.ancestors? id = some above) :
    ancestorsAmong? id cs = some above := by
  induction cs with
  | nil => simp at hc
  | cons k cs ih =>
    rw [ancestorsAmong?]
    by_cases hk : k = c
    · rw [hk, h]
    · rw [others k (List.mem_cons_self ..) hk]
      exact ih ((List.mem_cons.1 hc).resolve_left (Ne.symm hk))
        fun k hk => others k (List.mem_cons_of_mem _ hk)

theorem ancestors?_eq_none {id : Nat} (h : ∀ x ∈ n.preorder, x.id ≠ id) :
    n.ancestors? id = none := by
  induction n using childrenInduction with
  | step n ih =>
    have among : ∀ cs ⊆ n.children, ancestorsAmong? id cs = none := by
      intro cs hcs
      induction cs with
      | nil => rw [ancestorsAmong?]
      | cons c cs ih' =>
        obtain ⟨hc, hcs⟩ := List.cons_subset.1 hcs
        rw [ancestorsAmong?, ih c hc fun x hx => h x (preorder_of_inner (mem_inner.2 ⟨c, hc, hx⟩))]
        exact ih' hcs
    obtain ⟨label, children⟩ := n
    rw [ancestors?, if_neg (h _ (self_mem_preorder _)), among _ (List.Subset.refl _)]
    rfl

def Distinct (root : Node) : Prop :=
  (root.preorder.map id).Nodup

namespace Distinct

theorem eq_of_id (h : root.Distinct) (hm : m ∈ root.preorder) (hn : n ∈ root.preorder)
    (hid : m.id = n.id) : m = n :=
  List.inj_on_of_nodup_map h hm hn hid

theorem ne_id_of_inner (h : root.Distinct) (hm : m ∈ root.inner) : m.id ≠ root.id := by
  intro hid
  rw [h.eq_of_id (preorder_of_inner hm) (self_mem_preorder root) hid] at hm
  exact not_inner_self hm

theorem forest (h : root.Distinct) :
    (∀ c ∈ root.children, c.Distinct) ∧
      root.children.Pairwise fun c k => (c.preorder.map id).Disjoint (k.preorder.map id) := by
  rw [Distinct, preorder_eq, preorderAll_eq_flatMap, List.map_cons, List.nodup_cons,
    List.map_flatMap, List.nodup_flatMap] at h
  exact h.2

theorem child (h : root.Distinct) (hc : c ∈ root.children) : c.Distinct :=
  h.forest.1 c hc

/-- The subtrees of two children have no number in common. -/
theorem child_eq (h : root.Distinct) (hc : c ∈ root.children) (hk : k ∈ root.children)
    (hm : m ∈ c.preorder) (hn : n ∈ k.preorder) (hid : m.id = n.id) : c = k := by
  by_contra hne
  have symm : Std.Symm fun c k : Node => (c.preorder.map id).Disjoint (k.preorder.map id) :=
    ⟨fun _ _ => List.disjoint_symm⟩
  refine h.forest.2.forall hc hk hne (List.mem_map_of_mem hm) ?_
  rw [hid]
  exact List.mem_map_of_mem hn

theorem of_mem (h : root.Distinct) (hn : n ∈ root.preorder) : n.Distinct := by
  induction root using childrenInduction with
  | step root ih =>
    obtain rfl | hn := mem_preorder.1 hn
    · exact h
    · obtain ⟨c, hc, hn⟩ := mem_inner.1 hn
      exact ih c hc (h.child hc) hn

/-- Looking for the number of a node finds the path to it. -/
theorem ancestors?_eq (h : root.Distinct) {above : List Node} (path : Path root m above) :
    root.ancestors? m.id = some above := by
  induction path with
  | here n => cases n; simp [ancestors?]
  | @down n c m above hc path ih =>
    have hm : m.id ≠ n.id := h.ne_id_of_inner (mem_inner.2 ⟨c, hc, path.mem_preorder⟩)
    have among : ancestorsAmong? m.id n.children = some above := by
      refine ancestorsAmong?_eq hc (fun k hk hne => ?_) (ih (h.child hc))
      exact ancestors?_eq_none fun x hx hid =>
        hne (h.child_eq hk hc hx path.mem_preorder hid)
    obtain ⟨label, children⟩ := n
    rw [ancestors?, if_neg (Ne.symm hm), among]
    rfl

theorem ancestors_eq (h : root.Distinct) {above : List Node} (path : Path root m above) :
    root.ancestors m = above := by
  rw [ancestors, h.ancestors?_eq path, Option.getD_some]

@[simp]
theorem ancestors_self (h : root.Distinct) : root.ancestors root = [] :=
  h.ancestors_eq (.here root)

theorem ancestors_child (h : root.Distinct) (hp : p ∈ root.preorder) (hc : c ∈ p.children) :
    root.ancestors c = p :: root.ancestors p := by
  obtain ⟨above, path⟩ := exists_path hp
  have step : Path p c [p] := .down hc (.here c)
  rw [h.ancestors_eq path, h.ancestors_eq (path.append step)]
  rfl

theorem mem_ancestors (h : root.Distinct) (hn : n ∈ root.preorder) :
    a ∈ root.ancestors n ↔ a ∈ root.preorder ∧ n ∈ a.inner := by
  obtain ⟨above, path⟩ := exists_path hn
  rw [h.ancestors_eq path]
  refine ⟨path.mem_above, fun ⟨ha, hin⟩ => ?_⟩
  obtain ⟨outer, path'⟩ := exists_path ha
  obtain ⟨c, hc, hin⟩ := mem_inner.1 hin
  obtain ⟨inside, path''⟩ := exists_path hin
  have hwhole := path'.append (.down hc path'')
  rw [← h.ancestors_eq path, h.ancestors_eq hwhole]
  simp

end Distinct

def stop (n : Node) : Nat := n.span.stop.byte

/-- What holds of every tree that a text is read into. -/
structure WellFormed (root : Node) : Prop where
  distinct : root.Distinct
  nested : ∀ n ∈ root.preorder, ∀ c ∈ n.children, n.encloses c = true
  ordered : ∀ n ∈ root.preorder,
    (n.children.filter (·.kind ≠ .comment)).Pairwise fun c k => c.stop ≤ k.start
  forward : ∀ n ∈ root.inner, n.start ≤ n.stop
  nonempty : ∀ n ∈ root.preorder, n.kind.isName = true → n.start < n.stop
  leaves : ∀ n ∈ root.preorder, n.kind.isLeaf = true → ∀ c ∈ n.children, c.kind = .comment
  plain : ∀ n ∈ root.preorder, n.kind.holdsStatements = false →
    ∀ c ∈ n.children, c.kind.isPlain = true
  opened : ∀ n ∈ root.preorder, n.kind.isOpened = true →
    ∀ c ∈ n.children, c.isPart = true → n.start < c.start
  fields : ∀ n ∈ root.preorder, ∀ f, n.field = some f → f.allows n.kind = true
  comments : ∀ n ∈ root.preorder, n.kind = .comment → n.field = none
  shaped : ∀ n ∈ root.preorder, n.kind.Demands
    ((n.children.filter fun c => c.kind ≠ .comment ∨ c.field ≠ none).map fun c => (c.kind, c.field))

/-- The tree of a file. Every text is read into one, but nothing is said of how a tree came about,
so what holds of all of them also holds where a reader goes on behind an error. -/
structure IsFile (root : Node) : Prop where
  wellFormed : root.WellFormed
  kind : root.kind = .sourceFile

theorem IsFile.isFunction (h : root.IsFile) : root.kind.isFunction = false := by
  rw [h.kind]
  rfl

namespace WellFormed

/-- Every node of a well-formed tree is well formed. -/
theorem of_mem (h : root.WellFormed) (hn : n ∈ root.preorder) : n.WellFormed where
  distinct := h.distinct.of_mem hn
  nested m hm := h.nested m (preorder_trans hn hm)
  ordered m hm := h.ordered m (preorder_trans hn hm)
  forward m hm := h.forward m (inner_of_preorder_inner hn hm)
  nonempty m hm := h.nonempty m (preorder_trans hn hm)
  leaves m hm := h.leaves m (preorder_trans hn hm)
  plain m hm := h.plain m (preorder_trans hn hm)
  opened m hm := h.opened m (preorder_trans hn hm)
  fields m hm := h.fields m (preorder_trans hn hm)
  comments m hm := h.comments m (preorder_trans hn hm)
  shaped m hm := h.shaped m (preorder_trans hn hm)

theorem child (h : root.WellFormed) (hc : c ∈ root.children) : c.WellFormed :=
  h.of_mem (child_mem_preorder hc)

theorem encloses (h : root.WellFormed) (hm : m ∈ root.preorder) : root.encloses m = true := by
  induction root using childrenInduction with
  | step root ih =>
    obtain rfl | hm := mem_preorder.1 hm
    · exact Span.contains_refl _
    · obtain ⟨c, hc, hm⟩ := mem_inner.1 hm
      exact Span.contains_trans (h.nested root (self_mem_preorder root) c hc)
        (ih c hc (h.child hc) hm)

/-- Tokens, comments and identifiers have only comments below them. -/
theorem comment_of_inner (h : root.WellFormed) (hleaf : root.kind.isLeaf = true)
    (hm : m ∈ root.inner) : m.kind = .comment := by
  induction root using childrenInduction with
  | step root ih =>
    obtain ⟨c, hc, hm⟩ := mem_inner.1 hm
    have hk : c.kind = .comment := h.leaves root (self_mem_preorder root) hleaf c hc
    obtain rfl | hm := mem_preorder.1 hm
    · exact hk
    · exact ih c hc (h.child hc) (by simp [hk, Kind.isLeaf]) hm

end WellFormed

end Node

end Handoff.Syntax

import Handoff.Proofs.Resolution.Lockstep
import Handoff.Proofs.Syntax.Alignment

/-!
# Deciding how two trees are spelled

Whether two trees are aligned can be computed. What a spread literal needs is checked at each
argument list that is respelled; that nothing is resolved in its type follows from the form of the
type.

## Main definitions

* `Node.isSilent`: a type that holds no expression.
* `align`: the pairs of two forests, if they are aligned.

## Main statements

* `Node.mute_of_isSilent`: in a type that holds no expression nothing is resolved.
* `aligned_of_align`: `align` finds alignments only.
-/

namespace Handoff.Syntax

open Node

namespace Node

mutual

/-- Whether a node is a type that holds no expression, such as the length of an array. -/
def isSilent : Node → Bool
  | ⟨label, children⟩ =>
    match label.kind with
    | .functionType | .interfaceType | .structType | .typeArguments => true
    | .typeIdentifier | .packageIdentifier | .qualifiedType | .genericType | .parenthesizedType
    | .pointerType | .sliceType | .mapType | .channelType => isSilentAll children
    | _ => false

def isSilentAll : List Node → Bool
  | [] => true
  | c :: cs => (!c.isPart || isSilent c) && isSilentAll cs

end

theorem isSilentAll_eq_all (cs : List Node) : isSilentAll cs = (cs.filter isPart).all isSilent := by
  induction cs with
  | nil => rw [isSilentAll, List.filter_nil, List.all_nil]
  | cons c cs ih =>
    rw [isSilentAll, ih, List.filter_cons]
    cases c.isPart
    · rfl
    · rfl

theorem mute_of_isSilent {n : Node} (h : n.isSilent = true) : n.Mute := by
  intro owner s
  induction n using innerInduction with
  | step n ih =>
    have hall : isSilentAll n.children = true → Resolver.visitAll owner n.children s = s := by
      intro h
      rw [isSilentAll_eq_all, List.all_eq_true] at h
      rw [Resolver.visitAll_eq_foldl]
      have hvisit : ∀ c ∈ n.children.filter isPart, Resolver.visit owner c s = s := fun c hc =>
        ih c (inner_of_mem_filter hc) (h c hc)
      generalize n.children.filter isPart = cs at hvisit
      induction cs with
      | nil => rfl
      | cons c cs ihcs =>
        obtain ⟨hc, hcs⟩ := List.forall_mem_cons.1 hvisit
        rw [List.foldl_cons, hc, ihcs hcs]
    obtain ⟨label, children⟩ := n
    rw [isSilent] at h
    rw [Resolver.visit]
    revert h hall
    cases label.kind <;> intro h hall <;> first | rfl | exact hall h | cases h

def spread? (argument : Node) : Option (Node × List Node) :=
  match argument.parts with
  | [literal] =>
    match literal.parts, literal.child? .body with
    | [type, found], some body =>
      if argument.kind = .variadicArgument ∧ literal.kind = .compositeLiteral ∧ found.id = body.id ∧
          body.kind = .literalValue ∧ type.isSilent = true ∧ (body.parts.all fun e =>
            e.kind == .literalElement && e.parts.length == 1 && e.element.kind == .funcLiteral) =
              true then
        some (literal, body.parts.map element)
      else none
    | _, _ => none
  | _ => none

theorem spreads_of_spread? {argument literal : Node} {elements : List Node}
    (hdistinct : argument.Distinct) (h : argument.spread? = some (literal, elements)) :
    Spreads argument literal elements := by
  unfold spread? at h
  split at h
  next found hargument =>
    split at h
    next type last body hliteral hbody =>
      split at h
      next hchecks =>
        obtain ⟨hkind, hcomposite, hid, hvalue, hsilent, helements⟩ := hchecks
        cases h
        have hmem : ∀ {n m : Node} {ms : List Node}, n.parts = ms → m ∈ ms → m ∈ n.children :=
          fun hms hm => List.mem_of_mem_filter (hms ▸ hm)
        have hfound := hmem hargument (List.mem_singleton_self _)
        have hlast : last ∈ literal.children := hmem hliteral (by simp)
        have hchild := (mem_children_of_child? hbody).1
        -- the body is found by its field and by its place, and has one number
        obtain rfl : last = body := (hdistinct.child hfound).eq_of_id (child_mem_preorder hlast)
          (child_mem_preorder hchild) hid
        refine ⟨hkind, hargument, type, last,
          ⟨hcomposite, hliteral, hbody, hvalue, mute_of_isSilent hsilent, fun e he => ?_⟩, rfl⟩
        have he := List.all_eq_true.1 helements e he
        simp only [Bool.and_eq_true, beq_iff_eq] at he
        obtain ⟨⟨hwrapped, hsole⟩, hfunction⟩ := he
        obtain ⟨c, hc⟩ := List.length_eq_one_iff.1 hsole
        refine ⟨hwrapped, ?_, hfunction⟩
        rw [element, if_pos hwrapped, hc]
        rfl
      next => cases h
    next => cases h
  next => cases h

instance (n : Node) : Decidable n.HasPlainChildren :=
  inferInstanceAs (Decidable (∀ c ∈ n.children, c.field = none ∧ c.kind ≠ .token ":="))

end Node

/-- The forests to align below two nodes: their children or, in a respelled argument list, the
arguments with the elements of the last one spelled out. -/
def below? (respelled : Label → Bool) (n n' : Node) : Option (List Node × List Node) :=
  if respelled n.label then
    (n.parts.getLast?.bind spread?).bind fun (_, elements) =>
      if n.kind = .argumentList ∧ n.HasPlainChildren ∧ n'.HasPlainChildren ∧
          n.parts.dropLast.length ≤ n'.parts.length then
        some (n.parts.dropLast ++ elements, n'.parts)
      else none
  else some (n.children, n'.children)

/-- The pairs of two aligned forests that are at most so deep and long; labels are compared by
`like`, and argument lists with a `respelled` label have to be respelled. -/
def align (like : Label → Label → Bool) (respelled : Label → Bool) :
    Nat → List Node → List Node → Option (List (Node × Node))
  | _ + 1, [], [] => some []
  | k + 1, n :: ns, n' :: ns' =>
    if like n.label n'.label then
      (below? respelled n n').bind fun (cs, cs') =>
        (align like respelled k cs cs').bind fun below =>
          (align like respelled k ns ns').map fun rest => (n, n') :: (below ++ rest)
    else none
  | _, _, _ => none

def Label.isLike (l l' : Label) : Bool :=
  l'.kind == l.kind && l'.field == l.field && (!l.isRead || l'.text == l.text)

theorem Label.like_of_isLike {l l' : Label} (h : l.isLike l' = true) : l.Like l' := by
  simp only [isLike, Bool.and_eq_true, Bool.or_eq_true, Bool.not_eq_true', beq_iff_eq] at h
  obtain ⟨⟨hkind, hfield⟩, htext⟩ := h
  exact ⟨hkind, hfield, fun hread => htext.resolve_left (by simp [hread])⟩

section Align

variable {like : Label → Label → Bool} {respelled : Label → Bool} {R : Label → Label → Prop}
  {P : Label → Prop} {n n' : Node} {cs cs' ns ns' : List Node} {ps qs : List (Node × Node)}

/-- Two nodes with the pairs below them. -/
theorem aligned_of_below? (hrespelled : ∀ l, respelled l = true → P l) (hR : R n.label n'.label)
    (hns : ((preorderAll n.children).map Node.id).Nodup)
    (h : below? respelled n n' = some (cs, cs'))
    (hps : ((preorderAll cs).map Node.id).Nodup → Aligned R P cs cs' ps)
    (hqs : Aligned R P ns ns' qs) : Aligned R P (n :: ns) (n' :: ns') ((n, n') :: (ps ++ qs)) := by
  unfold below? at h
  split at h
  next hspread =>
    obtain ⟨⟨literal, elements⟩, hfound, h⟩ := Option.bind_eq_some_iff.1 h
    dsimp only at h
    split at h
    next hchecks =>
      obtain ⟨hkind, hplain, hplain', hlength⟩ := hchecks
      obtain ⟨argument, hlast, hargument⟩ := Option.bind_eq_some_iff.1 hfound
      cases h
      have hparts : n.parts = n.parts.dropLast ++ [argument] :=
        (List.dropLast_append_getLast? argument hlast).symm
      have hmem : argument ∈ n.children := List.mem_of_mem_filter (List.mem_of_getLast? hlast)
      have hdistinct : argument.Distinct := by
        have hsub := (Aligned.preorderAll_sublist (List.singleton_sublist.2 hmem)).map Node.id
        rw [preorderAll_cons, preorderAll_nil, List.append_nil] at hsub
        exact hsub.nodup hns
      have hspreads := spreads_of_spread? hdistinct hargument
      refine .spread (hrespelled _ hspread) hR hkind hplain hplain' hparts hspreads
        (List.take_append_drop n.parts.dropLast.length n'.parts).symm ?_ ?_ hqs
      · rw [List.length_take, Nat.min_eq_left hlength]
      · rw [List.take_append_drop]
        exact hps (((Aligned.preorderAll_spread_sublist hparts hspreads).map Node.id).nodup hns)
    next => cases h
  next =>
    cases h
    exact .node hR (hps hns) hqs

/-- What `align` finds is an alignment. -/
theorem aligned_of_align (hlike : ∀ l l', like l l' = true → R l l')
    (hrespelled : ∀ l, respelled l = true → P l) {k : Nat}
    (hns : ((preorderAll ns).map Node.id).Nodup) (h : align like respelled k ns ns' = some ps) :
    Aligned R P ns ns' ps := by
  induction k generalizing ns ns' ps with
  | zero => cases h
  | succ k ih =>
    cases ns with
    | nil =>
      cases ns' with
      | nil =>
        cases h
        exact .nil
      | cons _ _ => cases h
    | cons n ns =>
      cases ns' with
      | nil => cases h
      | cons n' ns' =>
        rw [preorderAll_cons] at hns
        have hchildren := (((Aligned.preorderAll_children_sublist n).trans
          (List.sublist_append_left _ (preorderAll ns))).map Node.id).nodup hns
        have hrest :=
          ((List.sublist_append_right n.preorder (preorderAll ns)).map Node.id).nodup hns
        rw [align] at h
        split at h
        next hlabel =>
          obtain ⟨⟨cs, cs'⟩, hbelow, h⟩ := Option.bind_eq_some_iff.1 h
          obtain ⟨below, hps, h⟩ := Option.bind_eq_some_iff.1 h
          obtain ⟨rest, hqs, rfl⟩ := Option.map_eq_some_iff.1 h
          exact aligned_of_below? hrespelled (hlike _ _ hlabel) hchildren hbelow
            (fun hcs => ih hcs hps) (ih hrest hqs)
        next => cases h

end Align

end Handoff.Syntax

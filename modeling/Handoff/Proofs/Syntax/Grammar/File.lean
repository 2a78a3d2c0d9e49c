import Handoff.Proofs.Syntax.Grammar.Statement
import Handoff.Syntax.Grammar.File

/-!
# Every text is read into a well-formed tree

The rules give their drafts in the order of the text, so the items of a file do as well; what could
not be read comes last. Comments and numbers do not disturb that.
-/

namespace Handoff.Syntax.Grammar

open Draft

variable {lo mid hi : Nat} {read : Reader} {n : Nat}

theorem rule_sound (hr : SoundReader read) : SoundReader (rule n read)
  | .type ctx => typeRule_gives hr ctx
  | .typeTerm ctx => typeTerm_gives hr ctx
  | .expression ctx => binaryOf_gives hr ctx 1
  | .binary ctx level => binaryRule_gives hr ctx level
  | .unary ctx => unaryRule_gives hr ctx
  | .literalValue => literalValueRule_gives hr
  | .block => blockRule_gives hr
  | .statement => statementRule_gives hr
  | .ifStatement => ifRule_gives hr

theorem phrase_sound : ∀ n, SoundReader (phrase n)
  | 0 => fun _ _ => .failure
  | n + 1 => rule_sound (phrase_sound n)

theorem packageClause_gives : Gives Kind.isItem packageClause := by
  intro lo
  refine .branch ((keyword_gives _ _).bind fun word _ hword => ?_)
  refine (nameAs_gives rfl rfl _).bind fun name _ hname => .pure ?_
  exact (hword.cons hname).branchPlain (by simp) rfl rfl

theorem importName_gives : GivesAll Kind.isPlain importName := by
  intro lo
  unfold importName
  refine .test .peek fun t => .ite (fun _ => .pure .nil) fun _ => ?_
  extract_lets rest
  have hrest : ∀ name mid, Run Kind.isPlain lo [name] mid →
      Reads (rest name) mid (Run Kind.isPlain lo) :=
    fun name mid hname => .pure (hname.intoPlain _ rfl)
  refine .ite (fun _ => (literal_gives rfl rfl _).bind hrest) fun _ => ?_
  exact .ite (fun _ => (literal_gives rfl rfl _).bind hrest) fun _ =>
    (nameAs_gives rfl rfl _).bind hrest

theorem importSpec_gives : Gives Kind.isPlain importSpec := by
  intro lo
  refine .branch ((importName_gives _).bind fun name _ hname => ?_)
  refine (stringLiteral_gives (K := Kind.isPlain) rfl rfl _).bind fun path _ hpath => .pure ?_
  exact (hname.append (hpath.intoPlain _ rfl)).branchPlain (by simp) rfl rfl

theorem importDeclaration_gives : Gives Kind.isItem (importDeclaration n) := by
  intro lo
  have hspecs : Gives Kind.isPlain (Parser.branch .importSpecList do
      let opening ← Parser.symbol "("
      let found ← Parser.terminated (Token.isOperator · ")") importSpec n
      return opening :: found ++ [← Parser.symbol ")"]) :=
    .enclosed (terminated_gives importSpec_gives (fun _ h => h) n) (by simp) rfl rfl
  unfold importDeclaration
  refine .branch ((keyword_gives _ _).bind fun word _ hword => .test (.nextIs _) fun _ => ?_)
  refine .ite (fun _ => (hspecs _).bind fun specs _ hspecs => .pure ?_) fun _ =>
    (importSpec_gives _).bind fun spec _ hspec => .pure ?_
  · exact (hword.cons hspecs).branchPlain (by simp) rfl rfl
  · exact (hword.cons hspec).branchPlain (by simp) rfl rfl

section

variable (hr : SoundReader read)
include hr

theorem body?_gives : GivesAll Kind.isItem (body? read) := fun _ =>
  .test (.continuesWith _ _) fun _ => .ite
    (fun _ => (hr .block _).bind fun _ _ hbody => .pure (run_body hbody rfl rfl))
    fun _ => .pure .nil

theorem functionDeclaration_gives : Gives Kind.isItem (functionDeclaration n read) := by
  intro lo
  unfold functionDeclaration
  refine .branch ((keyword_marks _).bind fun word _ ⟨hword, hmark⟩ => ?_)
  refine (nameAs_gives rfl rfl _).bind fun name mid hname => .test (.nextIs _) fun _ => ?_
  extract_lets rest
  have hrest : ∀ generic at_, Run Kind.isPlain mid generic at_ → Reads (rest generic) at_
      fun ds hi => Run Kind.isItem lo [branch .functionDeclaration ds] hi := by
    intro generic at_ hgeneric
    refine (signature_gives hr _ _).bind fun parts _ hparts => ?_
    refine (body?_gives hr _).bind fun body _ hbody => .pure ?_
    have hhead := (hword.cons ((hname.intoPlain .name rfl).cons hgeneric)).append hparts
    exact (hhead.item.append hbody).branchOpened hmark rfl rfl fun hk => by cases hk
  refine .ite (fun _ => ?_) fun _ => hrest [] mid .nil
  exact (typeParameterList_gives hr _).bind fun list _ hlist => hrest _ _ (hlist.intoPlain _ rfl)

theorem methodDeclaration_gives : Gives Kind.isItem (methodDeclaration n read) := by
  intro lo
  refine .branch ((keyword_marks _).bind fun word _ ⟨hword, hmark⟩ => ?_)
  refine (parameterList_gives (K := Kind.isPlain) hr rfl _).bind fun receiver _ hreceiver => ?_
  refine (nameAs_gives rfl rfl _).bind fun name _ hname => ?_
  refine (signature_gives hr _ _).bind fun parts _ hparts => ?_
  refine (body?_gives hr _).bind fun body _ hbody => .pure ?_
  have hhead :=
    hword.cons ((hreceiver.intoPlain .receiver rfl).cons ((hname.intoPlain .name rfl).cons hparts))
  exact (hhead.item.append hbody).branchOpened hmark rfl rfl fun hk => by cases hk

theorem item_gives : Gives Kind.isItem (item n read) := by
  intro lo
  unfold item
  refine .test .peek fun t => .ite (fun _ => packageClause_gives _) fun _ => ?_
  refine .ite (fun _ => importDeclaration_gives _) fun _ =>
    .ite (fun _ => ?_) fun _ => hr .statement _
  exact .orElse (functionDeclaration_gives hr _)
    (.orElse (methodDeclaration_gives hr _) (hr .statement _))

theorem terminatedItem_gives : GivesAll Kind.isItem (terminatedItem n read) := by
  intro lo
  unfold terminatedItem
  refine (item_gives hr _).bind fun found _ hfound =>
    terminator?_reads.bind fun ending _ hending => ?_
  cases ending with
  | some ending => exact .pure (hfound.cons hending.item)
  | none =>
    refine .test .peek fun _ => .ite (fun _ => .pure ?_) fun _ => .failure
    exact hfound.widen (Nat.le_refl _) hending

end

theorem le_start_of_placed {ts : List Token} (h : Token.Placed lo ts) :
    ∀ t ∈ ts, lo ≤ t.span.start.byte := by
  induction ts generalizing lo with
  | nil => simp
  | cons t ts ih =>
    obtain ⟨hlo, hforward, -, -, -, hrest⟩ := h
    refine List.forall_mem_cons.2 ⟨hlo, fun u hu => ?_⟩
    exact Nat.le_trans hlo (Nat.le_trans hforward (ih hrest u hu))

theorem forward_of_placed {ts : List Token} (h : Token.Placed lo ts) :
    ∀ t ∈ ts, t.span.start.byte ≤ t.span.stop.byte := by
  induction ts generalizing lo with
  | nil => simp
  | cons t ts ih =>
    obtain ⟨-, hforward, -, -, -, hrest⟩ := h
    exact List.forall_mem_cons.2 ⟨hforward, ih hrest⟩

/-- What could not be read stands after what was read. -/
theorem leftOver_run {ts : List Token} (h : Token.Placed lo ts) :
    ∃ hi, Run Kind.isItem lo (leftOver ts) hi := by
  unfold leftOver
  split
  · exact ⟨lo, .nil⟩
  next t us hfilter =>
    have hmem : ∀ u ∈ t :: us, u ∈ ts := fun u hu => (List.mem_filter.1 (hfilter ▸ hu)).1
    obtain ⟨ht, hus⟩ := List.forall_mem_cons.1 hmem
    obtain ⟨hfirst, hothers⟩ := Span.foldl_hull_contains Token.span us t.span
    generalize hspan : us.foldl (fun span u => span.hull u.span) t.span = span at *
    have hlower : Span.contains ⟨⟨lo, 0, 0⟩, span.stop⟩ span = true := by
      rw [← hspan]
      refine Span.contains_foldl_hull Token.span us ?_ fun u hu => ?_
      · rw [hspan]
        exact Span.contains_iff.2 ⟨le_start_of_placed h t ht, (Span.contains_iff.1 hfirst).2⟩
      · rw [hspan]
        exact Span.contains_iff.2
          ⟨le_start_of_placed h u (hus u hu), (Span.contains_iff.1 (hothers u hu)).2⟩
    have hforward : span.start.byte ≤ span.stop.byte :=
      Nat.le_trans (Span.contains_iff.1 hfirst).1
        (Nat.le_trans (forward_of_placed h t ht) (Span.contains_iff.1 hfirst).2)
    exact ⟨_, Run.single (Span.contains_iff.1 hlower).1 (.leaf hforward (by simp) rfl) rfl⟩

/-- The items of a file stand in the order of the text. -/
theorem items_run (hr : SoundReader read) (m : Nat) {ts : List Token} (h : Token.Placed lo ts) :
    ∃ hi, Run Kind.isItem lo (items n read m ts) hi := by
  induction m generalizing lo ts with
  | zero => exact leftOver_run h
  | succ m ih =>
    rw [items.eq_def]
    dsimp only
    split
    · exact ⟨lo, .nil⟩
    · split
      · exact ⟨lo, .nil⟩
      · split
        next found rest hfound =>
          obtain ⟨mid, hrest, hrun⟩ := terminatedItem_gives hr lo _ _ _ h hfound
          obtain ⟨hi, hitems⟩ := ih hrest
          exact ⟨hi, hrun.append hitems⟩
        next => exact leftOver_run h

end Handoff.Syntax.Grammar

namespace Handoff.Syntax

open Draft Outline

theorem fileItems_run (source : String) :
    ∃ hi, Run Kind.isItem 0 (Grammar.fileItems (Scan.ofText source).tokens) hi :=
  Grammar.items_run (Grammar.phrase_sound _) _ (Scan.placed_ofText source)

theorem rooted_of_run {items : List Draft} {lo hi : Nat} (h : Run Kind.isItem lo items hi)
    (span : Span) : Rooted ⟨.sourceFile, none, span, items⟩ where
  fits :=
    { leaf := fun h => by cases h
      plain := fun h => by cases h
      ordered := (List.pairwise_map.2 h.pairwise).sublist List.filter_sublist
      opened := fun h => by cases h
      shaped := trivial }
  child _ hc := (h.mem hc).2.2.1

theorem kind_parse (source : String) : (parse source).kind = .sourceFile := by
  unfold parse
  extract_lets scan comments found span file
  rw [kind_finish]
  exact congrArg Outline.kind (outline_insertAll file comments)

/-- Every text is read into a well-formed tree. -/
theorem parse_wellFormed (source : String) : (parse source).WellFormed := by
  obtain ⟨hi, hrun⟩ := fileItems_run source
  have hcomments : ∀ c ∈ (Scan.ofText source).comments.map (leaf .comment),
      c.IsComment ∧ c.Tidy := by
    intro c hc
    obtain ⟨span, hspan, rfl⟩ := List.mem_map.1 hc
    exact ⟨⟨rfl, rfl⟩, .leaf (Scan.forward_of_mem_comments_ofText span hspan) (by simp) rfl⟩
  unfold parse
  extract_lets scan comments found span file
  have hfile : file.Rooted := rooted_of_run hrun span
  have houtline := outline_insertAll file comments
  exact (hfile.insertAll comments hcomments).wellFormed source (congrArg Outline.kind houtline)
    (congrArg Outline.field houtline) 0

theorem isFile_parse (source : String) : (parse source).IsFile where
  wellFormed := parse_wellFormed source
  kind := kind_parse source

end Handoff.Syntax

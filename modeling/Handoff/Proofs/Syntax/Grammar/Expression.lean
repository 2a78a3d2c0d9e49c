import Handoff.Proofs.Syntax.Grammar.Type
import Handoff.Syntax.Grammar.Expression

/-!
# The layout of expressions

Each rule for expressions gives its draft in the order of the text. A name before a composite
literal is read as an expression first and turned into a type afterwards, at the same place.
-/

namespace Handoff.Syntax.Grammar

open Draft Outline

variable {lo mid hi : Nat} {read : Reader} {n : Nat} {ctx : Context}

def isOperand (k : Kind) : Bool := k.isPlain && k != .selectorExpression

theorem isPlain_of_isOperand (k : Kind) (h : isOperand k = true) : k.isPlain = true :=
  (Bool.and_eq_true_iff.1 h).1

/-- An operand, which stands at the same place as a type if it names one. -/
def OperandRun (lo : Nat) (d : Draft) (hi : Nat) : Prop :=
  Run Kind.isPlain lo [d] hi ∧ ∀ name, asTypeName d = some name → Run Kind.isPlain lo [name] hi

theorem OperandRun.of_kind {d : Draft} (h : Run isOperand lo [d] hi) : OperandRun lo d hi := by
  refine ⟨h.kinds isPlain_of_isOperand, fun name hname => ?_⟩
  obtain ⟨hlo, htidy, hkind, hhi⟩ := h
  unfold asTypeName at hname
  split at hname
  · cases hname
    exact ⟨hlo, .leaf htidy.forward (by simp) rfl, rfl, hhi⟩
  next hselector _ =>
    rw [hselector] at hkind
    cases hkind
  · cases hname

/-- An operand, a dot and a name are an operand again. -/
theorem OperandRun.selector {operand dot name : Draft} {at_ : Nat}
    (hoperand : Run Kind.isPlain lo [operand] mid) (hdot : Run Kind.isPlain mid [dot] at_)
    (hname : Run Kind.isPlain at_ [name] hi) :
    OperandRun lo
      (.branch .selectorExpression [operand.into .operand, dot, name.into .member]) hi := by
  refine ⟨((hoperand.intoPlain _ rfl).cons (hdot.cons (hname.intoPlain _ rfl))).branchPlain
    (by simp) rfl rfl, fun type htype => ?_⟩
  have hpackage : Run Kind.isPlain lo [(leaf .packageIdentifier operand.span).into .package] mid :=
    ⟨hoperand.1, .into (.leaf hoperand.2.1.forward (by simp) rfl) rfl (by rintro ⟨⟩),
      rfl, hoperand.2.2.2⟩
  have htypeName : Run Kind.isPlain at_ [(leaf .typeIdentifier name.span).into .name] hi :=
    ⟨hname.1, .into (.leaf hname.2.1.forward (by simp) rfl) rfl (by rintro ⟨⟩), rfl, hname.2.2.2⟩
  obtain ⟨-, rfl⟩ : _ ∧ _ = type := by simpa [asTypeName, branch] using htype
  exact (hpackage.cons (hdot.cons htypeName)).branchPlain (by simp) rfl rfl

/-- A function literal: its keyword and signature, then its body. -/
theorem functionLiteral_run {word body : Draft} {parts : List Draft}
    (hhead : Run Kind.isPlain lo (word :: parts) mid) (hmark : word.outline.IsMark)
    (hfields : ∀ d ∈ parts, d.field = some .parameters ∨ d.field = some .result)
    (hbody : Run (· == .block) mid [body] hi) :
    Run isOperand lo [.branch .funcLiteral (word :: parts ++ [body.into .body])] hi := by
  obtain ⟨text, htext⟩ : ∃ text, word.kind = .token text := hmark.1
  have hblock : body.kind = .block := Kind.eq_of_isAmong hbody.2.2.1
  have hword : word.field = none := hmark.2.2
  have hother : ∀ d ∈ word :: parts, d.field ≠ some .body := by
    refine List.forall_mem_cons.2 ⟨by simp [hword], fun d hd => ?_⟩
    obtain hd | hd := hfields d hd <;> simp [hd]
  refine (hhead.item.append (run_body hbody rfl rfl)).branch (by simp) rfl rfl
    (fun hk => by cases hk) (fun _ => by simpa using hmark)
    ⟨⟨_, List.mem_map_of_mem (List.mem_filter.2
      ⟨List.mem_map_of_mem (a := body.into .body) (by simp), ?_⟩), rfl⟩, ?_, ?_⟩
  · simp [outline, Draft.into, hblock]
  · refine List.pairwise_map.2 ((List.pairwise_map.2 ?_).sublist List.filter_sublist)
    refine List.pairwise_append.2
      ⟨?_, List.pairwise_singleton .., fun d hd _ _ h => hother d hd h.1⟩
    exact List.pairwise_of_forall_mem_list fun d hd _ _ h => hother d hd h.1
  · simp only [List.forall_mem_map, withoutComments, List.mem_filter, and_imp]
    intro d hd _
    simp only [List.cons_append, List.mem_cons, List.mem_append, List.not_mem_nil, or_false] at hd
    obtain rfl | hd | rfl := hd
    · exact .inr (.inr (.inr ⟨text, htext⟩))
    · exact (hfields d hd).imp_right .inl
    · exact .inr (.inr (.inl rfl))

/-- A call: what is called, type arguments if there are any, and the arguments. -/
theorem call_run {ds : List Draft} (h : Run Kind.isPlain lo ds hi)
    (hfields : ds.map Draft.field = [some .function, some .arguments] ∨
      ds.map Draft.field = [some .function, some .typeArguments, some .arguments]) :
    Run isOperand lo [.branch .callExpression ds] hi := by
  have hfilled : ∀ d ∈ ds, d.field ≠ none := by
    intro d hd
    have hmem := List.mem_map_of_mem (f := Draft.field) hd
    obtain heq | heq := hfields <;> rw [heq] at hmem <;> rintro hnone <;> simp [hnone] at hmem
  have hall : withoutComments (ds.map outline) = ds.map outline :=
    List.filter_eq_self.2 (by simpa [outline] using fun d hd => .inr (hfilled d hd))
  refine h.branch ?_ rfl rfl (fun _ _ hk => hk) (by rintro ⟨⟩) ?_
  · rintro rfl
    simp at hfields
  · rw [hall, List.map_map]
    simpa [Kind.Demands, outline, Function.comp_def] using hfields

section

variable (hr : SoundReader read)
include hr

theorem literalValueOf_gives : Gives (· == .literalValue) (read .literalValue) :=
  hr .literalValue

theorem unaryOf_gives (ctx : Context) : Gives Kind.isPlain (read (.unary ctx)) :=
  hr (.unary ctx)

theorem binaryOf_gives (ctx : Context) (level : Nat) :
    Gives Kind.isPlain (read (.binary ctx level)) :=
  hr (.binary ctx level)

/-- Operators of a level are read from left to right. -/
theorem binaryRest_reads {level : Nat} {left : Draft} (hleft : Run Kind.isPlain lo [left] mid)
    (n : Nat) :
    Reads (binaryRest read ctx level left n) mid fun d hi => Run Kind.isPlain lo [d] hi := by
  induction n generalizing left mid with
  | zero => exact .failure
  | succ n ih =>
    rw [binaryRest]
    refine .test .peek fun t => .test (.continues _) fun _ =>
      .ite (fun _ => ?_) fun _ => .pure hleft
    refine (symbol_gives _ _).bind fun operator _ hoperator => ?_
    refine (binaryOf_gives hr _ _ _).bind fun right _ hright => ih ?_
    have hoperands := (hoperator.intoPlain .operator rfl).cons (hright.intoPlain .right rfl)
    exact ((hleft.intoPlain _ rfl).cons hoperands).branchPlain (by simp) rfl rfl

theorem binaryRule_gives (ctx : Context) (level : Nat) :
    Gives Kind.isPlain (binaryRule n read ctx level) := fun _ =>
  (unaryOf_gives hr _ _).bind fun _ _ hleft => binaryRest_reads hr hleft n

theorem literalElement_gives : Gives Kind.isPlain (literalElement read) := by
  intro lo
  unfold literalElement
  refine .branch (.test (.nextIs _) fun _ => .ite (fun _ => ?_) fun _ => ?_)
  · refine (literalValueOf_gives hr _).bind fun value _ hvalue => .pure ?_
    refine Run.branchPlain (hvalue.kinds fun k hk => ?_) (by simp) rfl rfl
    rw [eq_of_beq hk]
    rfl
  · refine (expression_gives hr _ _).bind fun value _ hvalue => .pure ?_
    exact hvalue.branchPlain (by simp) rfl rfl

theorem element_gives : GivesAll Kind.isPlain (element read) := by
  intro lo
  unfold element
  refine (literalElement_gives hr _).bind fun first _ hfirst => .test (.nextIs _) fun _ => ?_
  refine .ite (fun _ => ?_) fun _ => .pure hfirst
  refine (symbol_gives _ _).bind fun colon _ hcolon => ?_
  refine (literalElement_gives hr _).bind fun value _ hvalue => .pure ?_
  exact (hfirst.cons (hcolon.cons hvalue)).branchPlain (by simp) rfl rfl

theorem literalValueRule_gives : Gives (· == .literalValue) (literalValueRule n read) :=
  .enclosed (separated_gives (element_gives hr) n) (by simp) rfl rfl

theorem compositeLiteral_gives {type : Draft} (htype : Run Kind.isPlain lo [type] mid) :
    Reads (compositeLiteral read type) mid fun d hi => Run isOperand lo [d] hi := by
  refine (literalValueOf_gives hr _).bind fun body _ hbody => .pure ?_
  exact ((htype.intoPlain _ rfl).cons (run_body hbody rfl rfl)).branchPlain (by simp) rfl rfl

theorem argument_gives : GivesAll Kind.isPlain (argument read) := by
  intro lo
  unfold argument
  refine (expression_gives hr _ _).bind fun value _ hvalue => .test (.nextIs _) fun _ => ?_
  refine .ite (fun _ => ?_) fun _ => .pure hvalue
  refine (symbol_gives _ _).bind fun dots _ hdots => .pure ?_
  exact (hvalue.cons hdots).branchPlain (by simp) rfl rfl

theorem argumentList_gives : Gives (· == .argumentList) (argumentList n read) :=
  .enclosed (separated_gives (argument_gives hr) n) (by simp) rfl rfl

omit hr in
theorem run_arguments {d : Draft} (h : Run (· == .argumentList) lo [d] hi) :
    Run Kind.isPlain lo [d.into .arguments] hi :=
  Run.kinds (Run.into h fun _ hk => hk) fun k hk => by
    rw [eq_of_beq hk]
    rfl

theorem typeFirstArguments_gives : Gives (· == .argumentList) (typeFirstArguments n read) := by
  intro lo
  have hvalue : GivesAll Kind.isPlain (do return [← expression read .enclosed]) := fun lo =>
    (expression_gives hr _ lo).bind fun _ _ hvalue => .pure hvalue
  unfold typeFirstArguments
  refine .branch ((symbol_marks (by simp)).bind fun opening _ ⟨hopening, hmark⟩ => ?_)
  refine (type_gives hr _ _).bind fun first mid hfirst => .test (.nextIs _) fun _ => ?_
  extract_lets rest
  have hrest : ∀ others at_, Run Kind.isPlain mid others at_ → Reads (rest others) at_
      fun ds hi => Run (· == .argumentList) lo [branch .argumentList ds] hi := by
    intro others at_ hothers
    refine (symbol_gives _ _).bind fun closing _ hclosing => .pure ?_
    have hall := (hopening.cons (hfirst.cons hothers)).append hclosing
    exact hall.branchOpened hmark rfl rfl fun _ _ h => h
  refine .ite (fun _ => ?_) fun _ => hrest [] mid .nil
  refine (symbol_gives _ _).bind fun comma _ hcomma => ?_
  exact (separated_gives hvalue n _).bind fun others _ hothers => hrest _ _ (hcomma.cons hothers)

theorem instantiated_reads {operand : Draft} (hoperand : OperandRun lo operand mid) :
    Reads (instantiated n read ctx operand) mid fun d hi => Run isOperand lo [d] hi := by
  unfold instantiated
  refine .test (.peekAfter _) fun _ => .ite (fun _ => .failure_bind) fun _ => ?_
  refine (typeArguments_gives hr _).bind fun types _ htypes =>
    .test (.continuesWith _ _) fun _ => ?_
  refine .ite (fun _ => ?_) fun _ => .test (.continuesWith _ _) fun _ =>
    .ite (fun _ => ?_) fun _ => .failure
  · refine (argumentList_gives hr _).bind fun arguments _ harguments => .pure ?_
    have hparts := (htypes.intoPlain .typeArguments rfl).cons (run_arguments harguments)
    exact call_run ((hoperand.1.intoPlain _ rfl).cons hparts) (.inr rfl)
  · split
    next name hname =>
      refine compositeLiteral_gives hr (Run.branchPlain ?_ (by simp) rfl rfl)
      exact ((hoperand.2 name hname).intoPlain _ rfl).cons (htypes.intoPlain _ rfl)
    next => exact .failure

theorem bound?_gives {field : Field} (hfield : field.allowsPlain = true) (ends : List String) :
    GivesAll Kind.isPlain (bound? read field ends) := fun _ =>
  .test .peek fun _ => .ite (fun _ => .pure .nil) fun _ =>
    (expression_gives hr _ _).bind fun _ _ hvalue => .pure (hvalue.intoPlain field hfield)

theorem indexed_reads {operand : Draft} (hoperand : Run Kind.isPlain lo [operand] mid) :
    Reads (indexed read operand) mid fun d hi => Run isOperand lo [d] hi := by
  unfold indexed
  refine (symbol_gives _ _).bind fun opening _ hopening => ?_
  refine (bound?_gives hr rfl _ _).bind fun start _ hstart => .test (.nextIs _) fun _ => ?_
  have hhead := (hoperand.intoPlain .operand rfl).cons hopening
  refine .ite (fun _ => ?_) fun _ => ?_
  · refine (symbol_gives _ _).bind fun colon _ hcolon => ?_
    refine (bound?_gives hr rfl _ _).bind fun stop mid hstop => .test (.nextIs _) fun _ => ?_
    extract_lets rest
    have hrest : ∀ capacity at_, Run Kind.isPlain mid capacity at_ →
        Reads (rest capacity) at_ fun d hi => Run isOperand lo [d] hi := by
      intro capacity at_ hcapacity
      refine (symbol_gives _ _).bind fun closing _ hclosing => .pure ?_
      have hbounds := (hhead.append hstart).append (hcolon.cons hstop)
      exact ((hbounds.append hcapacity).append hclosing).branchPlain (by simp) rfl rfl
    refine .ite (fun _ => ?_) fun _ => hrest [] mid .nil
    refine (symbol_gives _ _).bind fun colon _ hcolon => ?_
    refine (expression_gives hr _ _).bind fun capacity _ hcapacity => ?_
    exact hrest _ _ (hcolon.cons (hcapacity.intoPlain _ rfl))
  · split
    next index =>
      refine (symbol_gives _ _).bind fun closing _ hclosing => .pure ?_
      exact (hhead.append ((hstart.intoPlain .index rfl).cons hclosing)).branchPlain
        (by simp) rfl rfl
    next => exact .failure

/-- An operand is followed by one selector, or stays as it is. -/
theorem selected?_reads {operand : Draft} (hoperand : OperandRun lo operand mid) :
    Reads (selected? read operand) mid fun found hi => OperandRun lo (found.getD operand) hi := by
  unfold selected?
  refine .test (.peekAfter _) fun _ => .ite (fun _ => ?_) fun _ =>
    .ite (fun _ => .test (.peekAfter _) fun _ => .ite (fun _ => .pure hoperand) fun _ => ?_)
      fun _ => .failure
  · refine (symbol_gives _ _).bind fun dot _ hdot => ?_
    exact (wordAs_gives rfl rfl _).bind fun name _ hname => .pure (.selector hoperand.1 hdot hname)
  · refine (symbol_gives _ _).bind fun dot _ hdot => ?_
    refine (symbol_gives _ _).bind fun opening _ hopening => ?_
    refine (type_gives hr _ _).bind fun type _ htype => ?_
    refine (symbol_gives _ _).bind fun closing _ hclosing => .pure (.of_kind ?_)
    have htail := hdot.cons (hopening.cons ((htype.intoPlain .type rfl).cons hclosing))
    exact ((hoperand.1.intoPlain _ rfl).cons htail).branchPlain (by simp) rfl rfl

/-- An operand with all that follows it. -/
theorem postfixes_reads {operand : Draft} (hoperand : OperandRun lo operand mid) (m : Nat) :
    Reads (postfixes n read ctx operand m) mid fun d hi => Run Kind.isPlain lo [d] hi := by
  induction m generalizing operand mid with
  | zero => exact .failure
  | succ m ih =>
    rw [postfixes]
    refine .test (.continues _) fun _ => .ite (fun _ => .pure hoperand.1) fun _ =>
      .test .peek fun _ => ?_
    refine .ite (fun _ => ?_) fun _ => .ite (fun _ => ?_) fun _ => .ite (fun _ => ?_) fun _ =>
      .ite (fun _ => ?_) fun _ => .pure hoperand.1
    · refine (selected?_reads hr hoperand).bind fun found _ hfound => ?_
      split
      · exact ih hfound
      · exact .pure hfound.1
    · refine (argumentList_gives hr _).bind fun arguments _ harguments => ih (.of_kind ?_)
      exact call_run ((hoperand.1.intoPlain _ rfl).cons (run_arguments harguments)) (.inl rfl)
    · exact Reads.bind (.orElse (instantiated_reads hr hoperand) (indexed_reads hr hoperand.1))
        fun longer _ hlonger => ih (.of_kind hlonger)
    · split
      next name hname =>
        exact (compositeLiteral_gives hr (hoperand.2 name hname)).bind fun _ _ h => ih (.of_kind h)
      next => exact .pure hoperand.1

theorem conversion_reads {target : Draft} (htarget : Run Kind.isPlain lo [target] mid) :
    Reads (conversion read target) mid fun d hi => Run isOperand lo [d] hi := by
  unfold conversion
  refine (symbol_gives _ _).bind fun opening _ hopening => ?_
  refine (expression_gives hr _ _).bind fun operand at_ hoperand => .test (.nextIs _) fun _ => ?_
  extract_lets rest
  have hrest : ∀ comma stop, Run Kind.isPlain at_ comma stop →
      Reads (rest comma) stop fun d hi => Run isOperand lo [d] hi := by
    intro comma stop hcomma
    refine (symbol_gives _ _).bind fun closing _ hclosing => .pure ?_
    have hinside := hopening.cons ((hoperand.intoPlain .operand rfl).cons hcomma)
    exact (((htarget.intoPlain _ rfl).cons hinside).append hclosing).branchPlain (by simp) rfl rfl
  refine .ite (fun _ => ?_) fun _ => hrest [] _ .nil
  exact (symbol_gives _ _).bind fun comma _ hcomma => hrest [comma] _ hcomma

theorem typeOperand_gives : Gives isOperand (typeOperand read) := by
  intro lo
  unfold typeOperand
  refine (type_gives hr _ _).bind fun found _ hfound => .test (.nextIs _) fun _ => ?_
  exact .ite (fun _ => compositeLiteral_gives hr hfound) fun _ => conversion_reads hr hfound

theorem functionOperand_gives : Gives isOperand (functionOperand n read) := by
  intro lo
  unfold functionOperand
  refine (keyword_marks _).bind fun word _ ⟨hword, hmark⟩ => ?_
  refine (signature_reads hr _).bind fun parts _ ⟨hparts, hfields⟩ => .test (.nextIs _) fun _ => ?_
  have hhead := hword.cons hparts
  refine .ite (fun _ => ?_) fun _ => conversion_reads hr (hhead.branchPlain (by simp) rfl rfl)
  refine (hr .block _).bind fun body _ hbody => .pure ?_
  exact functionLiteral_run hhead hmark hfields hbody

theorem parenthesized_gives : Gives isOperand (parenthesized read) := by
  intro lo
  refine .branch ((symbol_gives _ _).bind fun opening _ hopening => ?_)
  refine (expression_gives hr _ _).bind fun inner _ hinner => ?_
  refine (symbol_gives _ _).bind fun closing _ hclosing => .pure ?_
  exact (hopening.cons (hinner.cons hclosing)).branchPlain (by simp) rfl rfl

omit hr in
theorem isAmong_wordKind (text : String) : (wordKind text).isAmong isOperand = true := by
  unfold wordKind
  split <;> rfl

omit hr in
theorem isShaped_wordKind (text : String) : (wordKind text).isShaped = false := by
  unfold wordKind
  split <;> rfl

theorem wordOperand_gives (ctx : Context) : Gives isOperand (wordOperand n read ctx) := by
  intro lo
  have hname (text : String) : Gives isOperand (Parser.nameAs (wordKind text)) :=
    nameAs_gives_of (isAmong_wordKind text) (isShaped_wordKind text)
  unfold wordOperand
  refine .test .peek fun t => (hname t.text _).bind fun name _ hname =>
    .test (.continuesWith _ _) fun _ =>
      .ite (fun _ => .orElse ?_ (.pure hname)) fun _ => .pure hname
  refine (typeFirstArguments_gives hr _).bind fun arguments _ harguments => .pure ?_
  have hfunction := (hname.kinds isPlain_of_isOperand).intoPlain .function rfl
  exact call_run (hfunction.cons (run_arguments harguments)) (.inl rfl)

omit hr in
/-- Any token, as a literal of a kind. -/
theorem literal_gives {K : Kind → Bool} {k : Kind} (hK : k.isAmong K = true)
    (hk : (k.isName || k.isShaped) = false) :
    Gives K (Parser.tokenIf (fun _ => true) fun _ => k) := by
  obtain ⟨hname, hshaped⟩ := Bool.or_eq_false_iff.1 hk
  exact tokenIf_gives (fun _ => hK) (fun _ => hshaped) fun _ _ h => by cases hname.symm.trans h

theorem operand_gives (ctx : Context) : Gives isOperand (operand n read ctx) := by
  intro lo
  unfold operand
  refine .test .peek fun t => ?_
  split
  · exact literal_gives rfl rfl _
  · exact literal_gives rfl rfl _
  · exact literal_gives rfl rfl _
  · exact literal_gives rfl rfl _
  · exact stringLiteral_gives rfl rfl _
  · exact stringLiteral_gives rfl rfl _
  · refine .ite (fun _ => wordOperand_gives hr _ _) fun _ => ?_
    exact .ite (fun _ => functionOperand_gives hr _) fun _ => typeOperand_gives hr _
  · refine .ite (fun _ => .orElse (parenthesized_gives hr _) ?_) fun _ => typeOperand_gives hr _
    exact (parenthesizedType_gives hr _).bind fun target _ htarget => conversion_reads hr htarget
  · exact .failure
  · exact .failure

theorem unaryRule_gives (ctx : Context) : Gives Kind.isPlain (unaryRule n read ctx) := by
  intro lo
  unfold unaryRule
  refine .test .peek fun t => ?_
  extract_lets isOperator
  refine .test (.peekAfter _) fun _ => ?_
  refine .ite (fun _ => ?_) fun _ =>
    (operand_gives hr _ _).bind fun found _ hfound => postfixes_reads hr (.of_kind hfound) n
  refine (symbol_gives _ _).bind fun operator _ hoperator => ?_
  refine (unaryOf_gives hr _ _).bind fun inner _ hinner => .pure ?_
  exact ((hoperator.intoPlain _ rfl).cons (hinner.intoPlain _ rfl)).branchPlain (by simp) rfl rfl

theorem expressionList_gives (ctx : Context) : Gives Kind.isPlain (expressionList n read ctx) :=
  fun _ => .branch ((commas_reads (expression_gives hr _) rfl n _).mono fun _ _ hds =>
    hds.1.branchPlain hds.2 rfl rfl)

end

end Handoff.Syntax.Grammar

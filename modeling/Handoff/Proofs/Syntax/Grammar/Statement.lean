import Handoff.Proofs.Syntax.Grammar.Expression
import Handoff.Syntax.Grammar.Statement

/-!
# The layout of statements

Each rule for statements, clauses and declarations gives its draft in the order of the text. An
expression that turns out to be a condition or a value is taken out of the statement it was read as.
-/

namespace Handoff.Syntax.Grammar

open Draft Outline

variable {lo mid hi : Nat} {read : Reader} {n : Nat} {ctx : Context}

def isProperItem (k : Kind) : Bool := k.isItem && k != .expressionStatement

theorem isItem_of_isProperItem (k : Kind) (h : isProperItem k = true) : k.isItem = true :=
  (Bool.and_eq_true_iff.1 h).1

/-- A statement, and the expression that it consists of if it is one. -/
def StatementRun (lo : Nat) (d : Draft) (hi : Nat) : Prop :=
  Run Kind.isItem lo [d] hi ∧
    ∀ value, d.kind = .expressionStatement → d.children = [value] → Run Kind.isPlain lo [value] hi

theorem StatementRun.of_kind {d : Draft} (h : Run isProperItem lo [d] hi) :
    StatementRun lo d hi := by
  refine ⟨h.kinds isItem_of_isProperItem, fun value hkind _ => ?_⟩
  have := h.2.2.1
  rw [hkind] at this
  cases this

theorem StatementRun.expression {value : Draft} (h : Run Kind.isPlain lo [value] hi) :
    StatementRun lo (.branch .expressionStatement [value]) hi := by
  refine ⟨h.branchPlain (by simp) rfl rfl, fun value' _ hvalue => ?_⟩
  obtain rfl : value = value' := by simpa [branch] using hvalue
  exact h

theorem soleExpression_reads {statement : Draft} (h : StatementRun lo statement mid) :
    Reads (soleExpression statement) mid fun value hi => Run Kind.isPlain lo [value] hi := by
  unfold soleExpression
  split
  next value hkind hchildren => exact .pure (h.2 value hkind hchildren)
  next => exact .failure

theorem listOf_run {found : List Draft} (h : Run Kind.isPlain lo found hi ∧ found ≠ []) :
    Run Kind.isPlain lo [listOf found] hi :=
  h.1.branchPlain h.2 rfl rfl

/-- The names of a value spec, with the commas between them. -/
theorem specNames_reads (ctx : Context) :
    Reads (specNames n ctx) lo fun ds hi => Run Kind.isName lo ds hi ∧ ds ≠ [] :=
  (commas_reads (nameAs_gives_of rfl rfl) rfl n _).bind fun _ _ hds =>
    .pure ⟨hds.1.mapInto fun _ _ => rfl, by simpa using hds.2⟩

/-- A value spec: its names, and a type and values that fill other fields. -/
theorem valueSpec_run {k : Kind} {names rest : List Draft} (hk : k = .varSpec ∨ k = .constSpec)
    (hnames : Run Kind.isName lo names mid ∧ names ≠ [])
    (hrest : Run Kind.isPlain mid rest hi ∧ ∀ d ∈ rest, d.field ≠ some .name) :
    Run Kind.isPlain lo [.branch k (names ++ rest)] hi := by
  have hplain : Run Kind.isPlain lo names mid := hnames.1.kinds fun k hk => by
    obtain rfl | rfl : k = .identifier ∨ k = .token "," := by simpa using hk
    all_goals rfl
  have hshaped : ∀ c ∈ (withoutComments ((names ++ rest).map outline)).map fun o =>
      (o.kind, o.field), c.2 = some .name → c.1.isName = true := by
    simp only [List.forall_mem_map, withoutComments, List.mem_filter, and_imp]
    intro d hd _ hfield
    obtain hd | hd := List.mem_append.1 hd
    · exact (hnames.1.mem hd).2.2.2
    · exact absurd hfield (hrest.2 d hd)
  obtain rfl | rfl := hk
  all_goals
    exact (hplain.append hrest.1).branch (by simp [hnames.2]) rfl rfl (fun _ _ h => h)
      (by rintro ⟨⟩) hshaped

theorem groupedSpecs_gives {item : Parser Draft} (h : Gives Kind.isPlain item) :
    ∀ n, GivesAll Kind.isPlain (groupedSpecs item n)
  | 0 => fun _ => .failure
  | n + 1 => fun lo => by
    rw [groupedSpecs]
    refine .test (.nextIs _) fun _ => .ite (fun _ => .pure .nil) fun _ => ?_
    refine (h lo).bind fun spec _ hspec => terminator?_reads.bind fun ending _ hending => ?_
    cases ending with
    | some ending =>
      refine (groupedSpecs_gives h n _).bind fun rest _ hrest => .pure ?_
      exact hspec.cons (hending.cons hrest)
    | none => exact .failure

theorem declaration_gives {k : Kind} {item : Parser Draft} (h : Gives Kind.isPlain item)
    (hbranch : k.isBranch = true) (hk : k.isItem = true) (word : String) :
    Gives Kind.isItem (declaration n k word item) := by
  intro lo
  unfold declaration
  refine .branch ((keyword_marks _).bind fun word _ ⟨hword, hmark⟩ => .test (.nextIs _) fun _ => ?_)
  refine .ite (fun _ => ?_) fun _ => ?_
  · refine (symbol_gives _ _).bind fun opening _ hopening => ?_
    refine (groupedSpecs_gives h n _).bind fun specs _ hspecs => ?_
    refine (symbol_gives _ _).bind fun closing _ hclosing => .pure ?_
    exact ((hword.cons (hopening.cons hspecs)).append hclosing).branchOpened hmark hbranch
      hk fun _ _ h => h
  · refine (h _).bind fun spec _ hspec => .pure ?_
    exact (hword.cons hspec).branchOpened hmark hbranch hk fun _ _ h => h

theorem atTypeGuard_isTest : IsTest atTypeGuard := by
  refine .bind .peek fun t => ?_
  split
  · exact .pure _
  · exact .bind (.peekAfter _) fun _ => .bind (.peekAfter _) fun _ => .pure _

theorem hasOperand_isTest : IsTest hasOperand :=
  .bind .peek fun _ => .bind (.continues _) fun _ => .pure _

/-- A jump with a label that may be left out. -/
theorem jump_gives {k : Kind} (hord : k.isOrdinary = true) (hk : k.isItem = true) (word : String) :
    Gives Kind.isItem (jump k word) := by
  intro lo
  unfold jump
  refine .branch ((keyword_gives _ _).bind fun word _ hword =>
    .test .peek fun _ => .test (.continues _) fun _ => .ite (fun _ => ?_) fun _ => .pure ?_)
  · refine (nameAs_gives rfl rfl _).bind fun label _ hlabel => .pure ?_
    exact (hword.cons hlabel).branchPlain (by simp) hord hk
  · exact hword.branchPlain (by simp) hord hk

theorem gotoStatement_gives : Gives Kind.isItem gotoStatement := by
  intro lo
  refine .branch ((keyword_gives _ _).bind fun word _ hword => ?_)
  refine (nameAs_gives rfl rfl _).bind fun label _ hlabel => .pure ?_
  exact (hword.cons hlabel).branchPlain (by simp) rfl rfl

section

variable (hr : SoundReader read)
include hr

theorem expressions_reads (ctx : Context) : Reads (Parser.commas ctx (expression read ctx) n) lo
    fun ds hi => Run Kind.isPlain lo ds hi ∧ ds ≠ [] :=
  commas_reads (expression_gives hr ctx) rfl n lo

/-- What follows the first expressions of a simple statement. -/
theorem simpleRest_reads {found : List Draft}
    (hfound : Run Kind.isPlain lo found mid ∧ found ≠ []) :
    Reads (simpleRest n read ctx found) mid (StatementRun lo) := by
  have hleft : Run Kind.isPlain lo [(listOf found).into .left] mid :=
    (listOf_run hfound).intoPlain _ rfl
  unfold simpleRest
  extract_lets left
  refine .test .peek fun t => .test (.continuesWith _ _) fun _ => .ite (fun _ => ?_) fun _ => ?_
  · refine (symbol_gives _ _).bind fun mark _ hmark => ?_
    refine (expressionList_gives hr _ _).bind fun right _ hright => .pure (.of_kind ?_)
    exact (hleft.cons (hmark.cons (hright.intoPlain _ rfl))).branchPlain (by simp) rfl rfl
  refine .test (.continues _) fun _ => .ite (fun _ => ?_) fun _ => ?_
  · refine (symbol_gives _ _).bind fun mark _ hmark => ?_
    refine (expressionList_gives hr _ _).bind fun right _ hright => .pure (.of_kind ?_)
    exact (hleft.cons ((hmark.intoPlain _ rfl).cons (hright.intoPlain _ rfl))).branchPlain
      (by simp) rfl rfl
  split
  next single =>
    have hsingle := hfound.1
    refine .test (.continuesWith _ _) fun _ => .ite (fun _ => ?_) fun _ => ?_
    · refine (symbol_gives _ _).bind fun arrow _ harrow => ?_
      refine (expression_gives hr _ _).bind fun value _ hvalue => .pure (.of_kind ?_)
      exact ((hsingle.intoPlain _ rfl).cons (harrow.cons (hvalue.intoPlain _ rfl))).branchPlain
        (by simp) rfl rfl
    refine .test (.continuesWith _ _) fun _ => .ite (fun _ => ?_) fun _ => ?_
    · refine (symbol_gives _ _).bind fun mark _ hmark => .pure (.of_kind ?_)
      exact (hsingle.cons hmark).branchPlain (by simp) rfl rfl
    refine .test (.continuesWith _ _) fun _ => .ite (fun _ => ?_) fun _ =>
      .pure (.expression hsingle)
    refine (symbol_gives _ _).bind fun mark _ hmark => .pure (.of_kind ?_)
    exact (hsingle.cons hmark).branchPlain (by simp) rfl rfl
  next => exact .failure

theorem simpleStatement_reads (ctx : Context) :
    Reads (simpleStatement n read ctx) lo (StatementRun lo) :=
  (expressions_reads hr ctx).bind fun _ _ hfound => simpleRest_reads hr hfound

theorem simpleStatement_gives (ctx : Context) : Gives Kind.isItem (simpleStatement n read ctx) :=
  fun _ => (simpleStatement_reads hr ctx).mono fun _ _ h => h.1

theorem specValues_reads : Reads (specValues n read) lo
    fun ds hi => Run Kind.isPlain lo ds hi ∧ ∀ d ∈ ds, d.field ≠ some .name := by
  refine (symbol_marks (by simp)).bind fun mark _ ⟨hmark, hfield⟩ => ?_
  refine (expressionList_gives hr _ _).bind fun values _ hvalues => .pure ?_
  have hnone : mark.field = none := hfield.2.2
  exact ⟨hmark.cons (hvalues.intoPlain _ rfl), by simp [Draft.into, hnone]⟩

omit hr in
/-- The type of a value spec, before what follows it. -/
theorem run_specType {type : Draft} {rest : List Draft} (htype : Run Kind.isPlain lo [type] mid)
    (hrest : Run Kind.isPlain mid rest hi ∧ ∀ d ∈ rest, d.field ≠ some .name) :
    Run Kind.isPlain lo (type.into .type :: rest) hi ∧
      ∀ d ∈ type.into .type :: rest, d.field ≠ some .name :=
  ⟨(htype.intoPlain _ rfl).cons hrest.1, List.forall_mem_cons.2 ⟨by simp [Draft.into], hrest.2⟩⟩

theorem varSpec_gives : Gives Kind.isPlain (varSpec n read) := by
  intro lo
  unfold varSpec
  refine .branch ((specNames_reads _).bind fun names _ hnames => .test (.nextIs _) fun _ => ?_)
  refine .ite (fun _ => ?_) fun _ => ?_
  · exact (specValues_reads hr).bind fun values _ hvalues =>
      .pure (valueSpec_run (.inl rfl) hnames hvalues)
  refine (type_gives hr _ _).bind fun declared mid hdeclared =>
    .test (.continuesWith _ _) fun _ => ?_
  extract_lets rest
  have hrest :
      ∀ values at_, (Run Kind.isPlain mid values at_ ∧ ∀ d ∈ values, d.field ≠ some .name) →
        Reads (rest values) at_ fun ds hi => Run Kind.isPlain lo [branch .varSpec ds] hi :=
    fun values at_ hvalues =>
      .pure (valueSpec_run (.inl rfl) hnames (run_specType hdeclared hvalues))
  exact .ite (fun _ => (specValues_reads hr).bind hrest) fun _ => hrest [] mid ⟨.nil, by simp⟩

theorem constSpec_gives : Gives Kind.isPlain (constSpec n read) := by
  intro lo
  unfold constSpec
  refine .branch ((specNames_reads _).bind fun names _ hnames => .test (.continues _) fun _ => ?_)
  have hnone : Run Kind.isPlain lo [branch .constSpec (names ++ [])] _ :=
    valueSpec_run (.inr rfl) hnames ⟨.nil, by simp⟩
  rw [List.append_nil] at hnone
  refine .ite (fun _ => .pure hnone) fun _ => .test (.nextIs _) fun _ =>
    .ite (fun _ => ?_) fun _ => ?_
  · exact (specValues_reads hr).bind fun values _ hvalues =>
      .pure (valueSpec_run (.inr rfl) hnames hvalues)
  refine .test .peek fun _ => .test (.nextIs _) fun _ => .ite (fun _ => ?_) fun _ => .pure hnone
  refine (type_gives hr _ _).bind fun declared _ hdeclared => ?_
  refine (specValues_reads hr).bind fun values _ hvalues => .pure ?_
  exact valueSpec_run (.inr rfl) hnames (run_specType hdeclared hvalues)

theorem typeSpec_gives : Gives Kind.isPlain (typeSpec n read) := by
  intro lo
  unfold typeSpec
  refine (nameAs_gives rfl rfl _).bind fun name _ hname => .test (.nextIs _) fun _ => ?_
  refine .ite (fun _ => ?_) fun _ => ?_
  · refine (symbol_gives _ _).bind fun mark _ hmark => ?_
    refine (type_gives hr _ _).bind fun type _ htype => .pure ?_
    exact ((hname.intoPlain _ rfl).cons (hmark.cons (htype.intoPlain _ rfl))).branchPlain
      (by simp) rfl rfl
  extract_lets plain generic
  refine .orElse ?_ ?_
  · refine (type_gives hr _ _).bind fun type _ htype => .pure ?_
    exact ((hname.intoPlain _ rfl).cons (htype.intoPlain _ rfl)).branchPlain (by simp) rfl rfl
  · refine (typeParameterList_gives hr _).bind fun parameters _ hparameters => ?_
    refine (type_gives hr _ _).bind fun type _ htype => .pure ?_
    have hparts := (hparameters.intoPlain .typeParameters rfl).cons (htype.intoPlain .type rfl)
    exact ((hname.intoPlain _ rfl).cons hparts).branchPlain (by simp) rfl rfl

theorem blockRule_gives : Gives (· == .block) (blockRule n read) := fun _ =>
  .branch (.mono
    (.enclosed (terminated_gives (hr .statement) (fun _ => Kind.isItem_of_isPlain) n)
      (fun _ => Kind.isItem_of_isPlain) (by simp) _)
    fun _ _ ⟨_, _, heq, _, hds⟩ => hds.branchHolding (by simp [heq]) rfl rfl rfl)

theorem clauseBody_gives : GivesAll Kind.isItem (clauseBody n read) :=
  terminated_gives (hr .statement) (fun _ => Kind.isItem_of_isPlain) n

/-- The statements after the head of a clause. -/
theorem clauseBody_reads {k : Kind} {head : List Draft} (hhead : Run Kind.isItem lo head mid)
    (hne : head ≠ []) (hord : k.isOrdinary = true) (hholds : k.holdsStatements = true) :
    Reads (clauseBody n read) mid fun ds hi => Run Kind.isAny lo [.branch k (head ++ ds)] hi :=
  (clauseBody_gives hr _).mono fun _ _ hds =>
    (hhead.append hds).branchHolding (by simp [hne]) hord rfl hholds

theorem defaultCase_gives : Gives Kind.isAny (defaultCase n read) := by
  intro lo
  refine .branch ((keyword_gives _ _).bind fun word _ hword => ?_)
  refine (symbol_gives _ _).bind fun colon _ hcolon => ?_
  have hhead := (hword.cons hcolon).item
  exact (clauseBody_reads hr hhead (by simp) rfl rfl).bind fun _ _ h => .pure h

theorem expressionCase_gives : Gives Kind.isAny (expressionCase n read) := by
  intro lo
  refine .branch ((keyword_gives _ _).bind fun word _ hword => ?_)
  refine (expressionList_gives hr _ _).bind fun value _ hvalue => ?_
  refine (symbol_gives _ _).bind fun colon _ hcolon => ?_
  have hhead := (hword.cons ((hvalue.intoPlain .value rfl).cons hcolon)).item
  exact (clauseBody_reads hr hhead (by simp) rfl rfl).bind fun _ _ h => .pure h

theorem typeCase_gives : Gives Kind.isAny (typeCase n read) := by
  intro lo
  refine .branch ((keyword_gives _ _).bind fun word _ hword => ?_)
  refine (commas_reads (type_gives hr _) rfl n _).bind fun types _ htypes => ?_
  refine (symbol_gives _ _).bind fun colon _ hcolon => ?_
  have hhead := ((hword.cons (htypes.1.mapIntoPlain .type rfl)).append hcolon).item
  refine (clauseBody_reads (k := .typeCase) hr hhead (by simp) rfl rfl).bind fun _ _ h => .pure ?_
  simpa using h

theorem communication_gives : Gives Kind.isItem (communication n read) := by
  intro lo
  unfold communication
  refine (expressions_reads hr _).bind fun found _ hfound => .test .peek fun t => ?_
  refine .ite (fun _ => ?_) fun _ => ?_
  · refine (symbol_gives _ _).bind fun mark _ hmark => ?_
    refine (expression_gives hr _ _).bind fun right _ hright => .pure ?_
    have hleft := (listOf_run hfound).intoPlain .left rfl
    exact (hleft.cons (hmark.cons (hright.intoPlain _ rfl))).branchPlain (by simp) rfl rfl
  split
  next single =>
    refine .ite (fun _ => ?_) fun _ => .pure ?_
    · refine (symbol_gives _ _).bind fun arrow _ harrow => ?_
      refine (expression_gives hr _ _).bind fun value _ hvalue => .pure ?_
      have hsides :=
        (hfound.1.intoPlain .channel rfl).cons (harrow.cons (hvalue.intoPlain .value rfl))
      exact hsides.branchPlain (by simp) rfl rfl
    · exact (hfound.1.intoPlain _ rfl).branchPlain (by simp) rfl rfl
  next => exact .failure

theorem communicationCase_gives : Gives Kind.isAny (communicationCase n read) := by
  intro lo
  refine .branch ((keyword_gives _ _).bind fun word _ hword => ?_)
  refine (communication_gives hr _).bind fun found _ hfound => ?_
  refine (symbol_gives _ _).bind fun colon _ hcolon => ?_
  have hfound : Run Kind.isItem _ [found.into .communication] _ := Run.into hfound fun _ _ => rfl
  have hhead := hword.item.cons (hfound.cons hcolon.item)
  exact (clauseBody_reads hr hhead (by simp) rfl rfl).bind fun _ _ h => .pure h

theorem clauses_gives {clause : Parser Draft} (h : Gives Kind.isAny clause) :
    ∀ m, GivesAll Kind.isAny (clauses n read clause m)
  | 0 => fun _ => .failure
  | m + 1 => fun lo => by
    rw [clauses]
    refine .test (.nextIs _) fun _ => .ite (fun _ => .pure .nil) fun _ => ?_
    refine .test (.nextIsWord _) fun _ => ?_
    extract_lets rest
    have hrest : ∀ found mid, Run Kind.isAny lo [found] mid →
        Reads (rest found) mid (Run Kind.isAny lo) :=
      fun found mid hfound =>
        (clauses_gives h m mid).bind fun others _ hothers => .pure (hfound.cons hothers)
    exact .ite (fun _ => (defaultCase_gives hr lo).bind hrest) fun _ => (h lo).bind hrest

theorem clauseBlock_gives {clause : Parser Draft} (h : Gives Kind.isAny clause) :
    GivesAll Kind.isAny (clauseBlock n read clause) := fun _ =>
  (Reads.enclosed (clauses_gives hr h n) (fun _ _ => rfl) (by simp) _).mono
    fun _ _ ⟨_, _, _, _, hds⟩ => hds

theorem typeSwitchRest_reads {start : List Draft} (hstart : Run Kind.isItem lo start mid) :
    Reads (typeSwitchRest n read start) mid fun d hi => Run Kind.isItem lo [d] hi := by
  refine (symbol_gives _ _).bind fun dot _ hdot =>
    (symbol_gives _ _).bind fun opening _ hopening => ?_
  refine (keyword_gives _ _).bind fun word _ hword =>
    (symbol_gives _ _).bind fun closing _ hclosing => ?_
  refine (clauseBlock_gives hr (typeCase_gives hr) _).bind fun clauses _ hclauses => .pure ?_
  have hguard := (hdot.cons (hopening.cons (hword.cons hclosing))).item
  have hhead := (hstart.append hguard).any
  exact (hhead.append hclauses).branchHolding (by simp) rfl rfl rfl

theorem expressionSwitchRest_reads {start value : List Draft} {at_ : Nat}
    (hstart : Run Kind.isItem lo start at_) (hvalue : Run Kind.isPlain at_ value mid)
    (hne : start ≠ []) : Reads (do
      return .branch .expressionSwitchStatement
        (start ++ value ++ (← clauseBlock n read (expressionCase n read)))) mid
      fun d hi => Run Kind.isItem lo [d] hi := by
  refine (clauseBlock_gives hr (expressionCase_gives hr) _).bind fun clauses _ hclauses => .pure ?_
  have hhead := hstart.append hvalue.item
  exact (hhead.any.append hclauses).branchHolding
    (by simp [hne]) rfl rfl rfl

/-- A switch, once its initializer and value are read. -/
theorem switchRest_reads {start : List Draft} {mayInitialize : Bool} (hne : start ≠ [])
    (hstart : Run Kind.isItem lo start mid) (m : Nat) :
    Reads (switchRest n read start mayInitialize m) mid fun d hi => Run Kind.isItem lo [d] hi := by
  induction m generalizing start mid mayInitialize with
  | zero => exact .failure
  | succ m ih =>
    rw [switchRest]
    refine .test (.nextIs _) fun _ => .ite (fun _ => ?_) fun _ => ?_
    · exact expressionSwitchRest_reads hr hstart .nil hne
    extract_lets ctx rest
    -- the statement that the expressions start: an initializer, or the value itself
    have hrest : ∀ statement stop, StatementRun mid statement stop →
        Reads (rest statement) stop fun d hi => Run Kind.isItem lo [d] hi := by
      intro statement stop hstatement
      refine .test (.nextIs _) fun _ => .ite (fun _ => ?_) fun _ => ?_
      · refine (symbol_gives _ _).bind fun ending _ hending => ih (by simp) ?_
        have hinitializer : Run Kind.isItem mid [statement.into .initializer] stop :=
          hstatement.1.into fun _ h => h
        exact hstart.append (hinitializer.cons hending.item)
      · split
        next value hkind hchildren =>
          have hvalue := (hstatement.2 value hkind hchildren).intoPlain .value rfl
          exact expressionSwitchRest_reads hr hstart hvalue hne
        next => exact .failure
    refine (expressions_reads hr _).bind fun found at_ hfound =>
      .test atTypeGuard_isTest fun _ => ?_
    extract_lets plain
    have hplain : Reads (plain ()) at_ fun d hi => Run Kind.isItem lo [d] hi := by
      unfold plain
      refine .test (.nextIs _) fun _ => ?_
      refine .ite (fun _ => ?_) fun _ => (simpleRest_reads hr hfound).bind hrest
      refine (symbol_gives _ _).bind fun mark _ hmark => ?_
      refine (expressions_reads hr _).bind fun right _ hright =>
        .test atTypeGuard_isTest fun _ => ?_
      extract_lets short
      have hsides := ((listOf_run hfound).intoPlain .left rfl).cons
        (hmark.cons ((listOf_run hright).intoPlain .right rfl))
      have hshort : Run isProperItem mid [.branch .shortVarDeclaration
          [(listOf found).into .left, mark, (listOf right).into .right]] _ :=
        hsides.branchPlain (by simp) rfl rfl
      refine .ite (fun _ => ?_) fun _ => hrest _ _ (.of_kind hshort)
      split
      next value =>
        refine typeSwitchRest_reads hr (hstart.append (Run.item ?_))
        exact ((listOf_run hfound).intoPlain _ rfl).cons (hmark.cons (hright.1.intoPlain _ rfl))
      next => exact .failure_bind
    refine .ite (fun _ => ?_) fun _ => hplain
    split
    next value => exact typeSwitchRest_reads hr (hstart.append (hfound.1.intoPlain _ rfl).item)
    next => exact .failure_bind

theorem switchStatement_gives : Gives Kind.isItem (switchStatement n read) := fun _ =>
  (keyword_gives _ _).bind fun _ _ hword => switchRest_reads hr (by simp) hword.item 2

theorem selectStatement_gives : Gives Kind.isItem (selectStatement n read) := by
  intro lo
  refine .branch ((keyword_gives _ _).bind fun word _ hword => ?_)
  refine (clauseBlock_gives hr (communicationCase_gives hr) _).bind
    fun clauses _ hclauses => .pure ?_
  exact (hword.any.cons hclauses).branchHolding (by simp) rfl rfl rfl

theorem ifRule_gives : Gives Kind.isItem (ifRule n read) := by
  intro lo
  unfold ifRule
  refine .branch ((keyword_gives _ _).bind fun word start hword => ?_)
  refine (simpleStatement_reads hr _).bind fun first mid hfirst => .test (.nextIs _) fun _ => ?_
  extract_lets afterHead
  have hafterHead : ∀ head at_, Run Kind.isItem start head at_ → Reads (afterHead head) at_
      fun ds hi => Run Kind.isItem lo [branch .ifStatement ds] hi := by
    intro head at_ hhead
    unfold afterHead
    refine (hr.block _).bind fun consequence stop hconsequence => ?_
    refine .test (.nextIsWord _) fun _ => .test (.continues _) fun _ => ?_
    have hconsequence : Run Kind.isItem _ [consequence.into .consequence] _ :=
      Run.into hconsequence fun _ _ => rfl
    extract_lets finish
    have hfinish : ∀ rest hi, Run Kind.isItem stop rest hi → Reads (finish rest) hi
        fun ds hi => Run Kind.isItem lo [branch .ifStatement ds] hi := fun rest hi hrest =>
      .pure (((hword.item.cons hhead).append (hconsequence.cons hrest)).branchHolding (by simp)
        rfl rfl rfl)
    refine .ite (fun _ => ?_) fun _ => hfinish [] stop .nil
    refine (keyword_gives _ _).bind fun word _ hword => .test (.nextIsWord _) fun _ => ?_
    extract_lets withElse
    have hwithElse : ∀ alternative hi, Run Kind.isItem _ [alternative] hi →
        Reads (withElse alternative) hi fun ds hi =>
          Run Kind.isItem lo [branch .ifStatement ds] hi := fun alternative hi halternative =>
      hfinish _ hi (hword.item.cons (halternative.into fun _ _ => rfl))
    exact .ite (fun _ => (hr .ifStatement _).bind hwithElse) fun _ => (hr.block _).bind hwithElse
  refine .ite (fun _ => ?_) fun _ => ?_
  · refine (symbol_gives _ _).bind fun ending _ hending => ?_
    refine (expression_gives hr _ _).bind fun condition _ hcondition => hafterHead _ _ ?_
    have hinitializer : Run Kind.isItem start [first.into .initializer] mid :=
      hfirst.1.into fun _ h => h
    exact hinitializer.cons (hending.item.cons (hcondition.intoPlain _ rfl).item)
  · refine (soleExpression_reads hfirst).bind fun condition _ hcondition => hafterHead _ _ ?_
    exact (hcondition.intoPlain _ rfl).item

/-- The clause of a `for` statement behind its initializer. -/
theorem forClauseRest_reads {start : List Draft} (hstart : Run Kind.isItem lo start mid) :
    Reads (forClauseRest n read start) mid fun d hi => Run Kind.isItem lo [d] hi := by
  unfold forClauseRest
  refine (symbol_gives _ _).bind fun first at_ hfirst => .test (.nextIs _) fun _ => ?_
  extract_lets afterCondition
  have hafterCondition : ∀ condition stop, Run Kind.isPlain at_ condition stop →
      Reads (afterCondition condition) stop fun d hi => Run Kind.isItem lo [d] hi := by
    intro condition stop hcondition
    unfold afterCondition
    refine (symbol_gives _ _).bind fun second last hsecond => .test (.nextIs _) fun _ => ?_
    have hhead := hstart.append (hfirst.cons hcondition).item
    extract_lets finish
    have hfinish : ∀ update hi, Run Kind.isItem last update hi →
        Reads (finish update) hi fun d hi => Run Kind.isItem lo [d] hi := fun update hi hupdate =>
      .pure ((hhead.append (hsecond.item.cons hupdate)).branchHolding (by simp) rfl rfl rfl)
    refine .ite (fun _ => hfinish [] last .nil) fun _ => ?_
    refine (simpleStatement_gives hr _ _).bind fun update _ hupdate => hfinish _ _ ?_
    exact hupdate.into fun _ _ => rfl
  refine .ite (fun _ => hafterCondition [] at_ .nil) fun _ => ?_
  exact (expression_gives hr _ _).bind fun condition _ hcondition =>
    hafterCondition _ _ (hcondition.intoPlain _ rfl)

theorem rangeRest_reads {start : List Draft} (hstart : Run Kind.isPlain lo start mid) :
    Reads (rangeRest read start) mid fun d hi => Run Kind.isItem lo [d] hi := by
  refine (keyword_gives _ _).bind fun word _ hword => ?_
  refine (expression_gives hr _ _).bind fun right _ hright => .pure ?_
  exact (hstart.append (hword.cons (hright.intoPlain _ rfl))).branchPlain (by simp) rfl rfl

theorem forHeader_gives : GivesAll Kind.isItem (forHeader n read) := by
  intro lo
  unfold forHeader
  refine .test (.nextIs _) fun _ => .ite (fun _ => .pure .nil) fun _ => ?_
  refine .test (.nextIsWord _) fun _ => .ite (fun _ => ?_) fun _ => ?_
  · exact (rangeRest_reads hr .nil).bind fun _ _ hclause => .pure hclause
  refine .test (.nextIs _) fun _ => .ite (fun _ => ?_) fun _ => ?_
  · exact (forClauseRest_reads hr .nil).bind fun _ _ hclause => .pure hclause
  extract_lets ctx
  refine (expressions_reads hr _).bind fun found _ hfound => ?_
  refine .test (.nextIs _) fun _ => .test (.nextIs _) fun _ => .test (.peekAfter _) fun _ => ?_
  refine .ite (fun _ => ?_) fun _ => ?_
  · refine .test .peek fun t => (symbol_gives _ _).bind fun mark _ hmark => ?_
    have hleft := ((listOf_run hfound).intoPlain .left rfl).cons hmark
    exact (rangeRest_reads hr hleft).bind fun _ _ hclause => .pure hclause
  refine (simpleRest_reads hr hfound).bind fun statement mid hstatement =>
    .test (.nextIs _) fun _ => ?_
  refine .ite (fun _ => ?_) fun _ => ?_
  · have hinitializer : Run Kind.isItem lo [statement.into .initializer] mid :=
      hstatement.1.into fun _ h => h
    exact (forClauseRest_reads hr hinitializer).bind fun _ _ hclause => .pure hclause
  · exact (soleExpression_reads hstatement).bind fun _ _ hvalue => .pure hvalue.item

theorem forStatement_gives : Gives Kind.isItem (forStatement n read) := by
  intro lo
  refine .branch ((keyword_gives _ _).bind fun word _ hword => ?_)
  refine (forHeader_gives hr _).bind fun header _ hheader => ?_
  refine (hr .block _).bind fun body _ hbody => .pure ?_
  exact ((hword.item.cons hheader).append (run_body hbody rfl rfl)).branchHolding
    (by simp) rfl rfl rfl

theorem returnStatement_gives : Gives Kind.isItem (returnStatement n read) := by
  intro lo
  unfold returnStatement
  refine .branch ((keyword_gives _ _).bind fun word _ hword => .test hasOperand_isTest fun _ => ?_)
  refine .ite (fun _ => ?_) fun _ => .pure (hword.branchPlain (by simp) rfl rfl)
  refine (expressionList_gives hr _ _).bind fun values _ hvalues => .pure ?_
  exact (hword.cons hvalues).branchPlain (by simp) rfl rfl

/-- The keyword is no part, so the call is the only one. -/
theorem spawned_gives {k : Kind} (hk : k = .goStatement ∨ k = .deferStatement) (word : String) :
    Gives Kind.isItem (spawned read k word) := by
  intro lo
  refine .branch ((keyword_marks _).bind fun word _ ⟨hword, hmark⟩ => ?_)
  refine (expression_gives hr _ _).bind fun call _ hcall => .pure ?_
  have hshaped :
      ((withoutComments ([word, call].map outline)).map fun o => (o.kind, o.field)).Pairwise
        fun c k => ¬ (c.1.isNamed = true ∧ k.1.isNamed = true) := by
    obtain ⟨text, htext⟩ : ∃ text, word.kind = .token text := hmark.1
    refine List.pairwise_map.2 (List.Pairwise.sublist List.filter_sublist ?_)
    simp [outline, htext, Kind.isNamed]
  obtain rfl | rfl := hk
  all_goals
    exact (hword.cons hcall).branch (by simp) rfl rfl (fun _ _ h => h)
      (fun _ => by simpa using hmark) hshaped

theorem labeledStatement_gives : Gives Kind.isItem (labeledStatement read) := by
  intro lo
  unfold labeledStatement
  refine .branch ((nameAs_gives rfl rfl _).bind fun label _ hlabel => ?_)
  refine (symbol_gives _ _).bind fun colon _ hcolon => .test .peek fun _ => ?_
  have hhead := (hlabel.intoPlain .label rfl).cons hcolon
  refine .ite (fun _ => .pure (hhead.branchPlain (by simp) rfl rfl)) fun _ => ?_
  refine (hr .statement _).bind fun statement _ hstatement => .pure ?_
  exact (hhead.item.append hstatement).branchHolding (by simp) rfl rfl rfl

theorem statementRule_gives : Gives Kind.isItem (statementRule n read) := by
  intro lo
  unfold statementRule
  refine .test .peek fun t => .ite (fun _ => literal_gives rfl rfl _) fun _ => ?_
  refine .ite (fun _ => hr.block _) fun _ => .test (.peekAfter _) fun _ => ?_
  refine .ite (fun _ => labeledStatement_gives hr _) fun _ => ?_
  refine .ite (fun _ => simpleStatement_gives hr _ _) fun _ => ?_
  split
  · exact declaration_gives (varSpec_gives hr) rfl rfl _ _
  · exact declaration_gives (constSpec_gives hr) rfl rfl _ _
  · exact declaration_gives (typeSpec_gives hr) rfl rfl _ _
  · exact returnStatement_gives hr _
  · exact spawned_gives hr (.inl rfl) _ _
  · exact spawned_gives hr (.inr rfl) _ _
  · exact hr .ifStatement _
  · exact forStatement_gives hr _
  · exact switchStatement_gives hr _
  · exact selectStatement_gives hr _
  · exact literal_gives rfl rfl _
  · exact jump_gives rfl rfl _ _
  · exact jump_gives rfl rfl _ _
  · exact gotoStatement_gives _
  · exact simpleStatement_gives hr _ _

end

end Handoff.Syntax.Grammar

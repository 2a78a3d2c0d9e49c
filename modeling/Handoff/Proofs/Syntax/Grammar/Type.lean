import Handoff.Proofs.Syntax.Grammar.Reads
import Handoff.Syntax.Grammar.Type

/-!
# The layout of types and signatures

Each rule for types, parameter lists and struct or interface bodies gives its drafts in the order of
the text.
-/

namespace Handoff.Syntax.Grammar

open Draft

variable {lo mid hi : Nat}

/-! ### Parameter lists -/

def Entry.drafts : Entry → List Draft
  | .word span => [leaf .identifier span]
  | .named name type => [name, type]
  | .unnamed type => [type]
  | .variadic parts => parts

def wordDrafts (entry : Span × List Draft) : List Draft :=
  leaf .identifier entry.1 :: entry.2

def entryDrafts (entry : Entry × List Draft) : List Draft :=
  entry.1.drafts ++ entry.2

theorem unnamedParameter_run {type : Draft} (h : Run Kind.isPlain lo [type] hi) :
    Run Kind.isPlain lo [unnamedParameter type] hi :=
  (h.intoPlain _ rfl).branchPlain (by simp) rfl rfl

theorem wordParameters_run {words : List (Span × List Draft)}
    (h : Run Kind.isPlain lo (words.flatMap wordDrafts) hi) :
    Run Kind.isPlain lo (words.flatMap wordParameter) hi := by
  induction words generalizing lo with
  | nil => exact h
  | cons word words ih =>
    obtain ⟨mid, hword, hwords⟩ := Run.append_iff.1 h
    obtain ⟨stop, hname, hcomma⟩ := Run.cons_iff.1 hword
    have htype : Run Kind.isPlain lo [leaf .typeIdentifier word.1] stop :=
      ⟨hname.1, .leaf hname.2.1.forward (by simp) rfl, rfl, hname.2.2.2⟩
    exact ((unnamedParameter_run htype).cons hcomma).append (ih hwords)

theorem namesInList_run {words : List (Span × List Draft)}
    (h : Run Kind.isPlain lo (words.flatMap wordDrafts) hi) :
    Run Kind.isPlain lo (words.flatMap nameInList) hi := by
  induction words generalizing lo with
  | nil => exact h
  | cons word words ih =>
    obtain ⟨mid, hword, hwords⟩ := Run.append_iff.1 h
    obtain ⟨stop, hname, hcomma⟩ := Run.cons_iff.1 hword
    exact ((hname.intoPlain _ rfl).cons hcomma).append (ih hwords)

theorem joined_run {words : List (Span × List Draft)} {name type : Draft}
    (hwords : Run Kind.isPlain lo (words.flatMap wordDrafts) mid)
    (hnamed : Run Kind.isPlain mid [name, type] hi) :
    Run Kind.isPlain lo (joined words name type) hi := by
  rw [joined, List.splitAt_eq]
  dsimp only
  rw [← List.take_append_drop (words.length + 1 - mostNames) words, List.flatMap_append] at hwords
  obtain ⟨stop, htypes, hnames⟩ := Run.append_iff.1 hwords
  obtain ⟨after, hname, htype⟩ := Run.cons_iff.1 hnamed
  refine (wordParameters_run htypes).append (Run.branchPlain ?_ (by simp) rfl rfl)
  exact (namesInList_run hnames).append ((hname.intoPlain _ rfl).cons (htype.intoPlain _ rfl))

/-- Grouping the entries of a parameter list keeps their order. -/
theorem declarations_run {words : List (Span × List Draft)} {entries : List (Entry × List Draft)}
    (hne : ∀ entry ∈ entries, entry.1.drafts ≠ [])
    (hwords : Run Kind.isPlain lo (words.flatMap wordDrafts) mid)
    (hentries : Run Kind.isPlain mid (entries.flatMap entryDrafts) hi) :
    Run Kind.isPlain lo (declarations words entries) hi := by
  induction entries generalizing words lo mid with
  | nil =>
    rw [declarations]
    exact (wordParameters_run hwords).widen (Nat.le_refl _) hentries
  | cons entry entries ih =>
    obtain ⟨entry, comma⟩ := entry
    obtain ⟨hentry, hothers⟩ := List.forall_mem_cons.1 hne
    obtain ⟨after, hfirst, hrest⟩ := Run.append_iff.1 hentries
    obtain ⟨stop, hdrafts, hcomma⟩ := Run.append_iff.1 hfirst
    have hlater : Run Kind.isPlain after (declarations [] entries) hi :=
      ih hothers .nil hrest
    cases entry with
    | word span =>
      rw [declarations]
      refine ih hothers ?_ hrest
      rw [List.flatMap_append]
      exact hwords.append (by simpa [wordDrafts] using hdrafts.cons hcomma)
    | named name type =>
      rw [declarations]
      exact ((joined_run hwords hdrafts).append hcomma).append hlater
    | unnamed type =>
      rw [declarations]
      exact ((wordParameters_run hwords).append
        ((unnamedParameter_run hdrafts).cons hcomma)).append hlater
    | variadic parts =>
      rw [declarations]
      exact ((wordParameters_run hwords).append
        ((hdrafts.branchPlain hentry rfl rfl).cons hcomma)).append hlater

variable {read : Reader} {n : Nat} {ctx : Context}

section

variable (hr : SoundReader read)
include hr

theorem type_gives (ctx : Context) : Gives Kind.isPlain (type read ctx) :=
  hr (.type ctx)

theorem typeTermOf_gives (ctx : Context) : Gives Kind.isPlain (read (.typeTerm ctx)) :=
  hr (.typeTerm ctx)

theorem expression_gives (ctx : Context) : Gives Kind.isPlain (expression read ctx) :=
  hr (.expression ctx)

theorem variadicType_reads :
    Reads (variadicType read) lo fun ds hi => Run Kind.isPlain lo ds hi ∧ ds ≠ [] := by
  refine (symbol_gives _ _).bind fun dots _ hdots => ?_
  refine (type_gives hr _ _).bind fun type _ htype => .pure ⟨?_, by simp⟩
  exact hdots.cons (htype.intoPlain _ rfl)

/-- An entry of a parameter list, which may be a name, a type, or both. -/
theorem entry_reads (close : String) :
    Reads (entry read close) lo fun e hi => Run Kind.isPlain lo e.drafts hi ∧ e.drafts ≠ [] := by
  have unnamed : Reads (do return Entry.unnamed (← type read .enclosed)) lo
      fun e hi => Run Kind.isPlain lo e.drafts hi ∧ e.drafts ≠ [] :=
    (type_gives hr _ _).bind fun type _ htype => .pure ⟨htype, by simp [Entry.drafts]⟩
  unfold entry
  refine .test .peek fun first => .ite (fun _ => ?_) fun _ => .ite (fun _ => unnamed) fun _ => ?_
  · exact (variadicType_reads hr).bind fun parts _ hparts => .pure hparts
  refine .test (.peekAfter _) fun second => .ite (fun _ => ?_) fun _ =>
    .ite (fun _ => ?_) fun _ => ?_
  · have hname : Gives (· == .identifier) (Parser.nameAs .identifier) :=
      nameAs_gives_of rfl rfl
    refine (hname _).bind fun name _ h => .pure ⟨?_, by simp [Entry.drafts]⟩
    obtain ⟨hlo, htidy, hkind, hhi⟩ := h
    have hname : name.kind.isName = true := by rw [Kind.eq_of_isAmong hkind]; rfl
    exact ⟨hlo, .leaf htidy.forward (fun _ => htidy.sound.nonempty hname) rfl, rfl, hhi⟩
  · refine (nameAs_gives rfl rfl _).bind fun name _ hname => ?_
    refine (variadicType_reads hr).bind fun parts _ hparts => .pure ⟨?_, by simp [Entry.drafts]⟩
    exact (hname.intoPlain _ rfl).cons hparts.1
  · extract_lets named _
    refine .ite (fun _ => unnamed) fun _ => .orElse ?_ unnamed
    refine (nameAs_gives rfl rfl _).bind fun name _ hname => ?_
    exact (type_gives hr _ _).bind fun type _ htype =>
      .pure ⟨hname.cons htype, by simp [Entry.drafts]⟩

theorem entries_reads (close : String) : ∀ n lo, Reads (entries read close n) lo fun found hi =>
    Run Kind.isPlain lo (found.flatMap entryDrafts) hi ∧ ∀ entry ∈ found, entry.1.drafts ≠ []
  | 0, _ => .failure
  | n + 1, lo => by
    rw [entries]
    refine .test (.nextIs _) fun _ => .ite (fun _ => .pure ⟨Nat.le_refl lo, by simp⟩) fun _ => ?_
    refine (entry_reads hr close).bind fun found mid hfound => .test (.nextIs _) fun _ => ?_
    refine .ite (fun _ => ?_) fun _ => .pure ⟨?_, by simpa using hfound.2⟩
    · refine (symbol_gives _ _).bind fun comma mid hcomma => ?_
      refine (entries_reads close n mid).bind fun rest hi hrest => .pure ⟨?_, ?_⟩
      · exact (hfound.1.append hcomma).append hrest.1
      · exact List.forall_mem_cons.2 ⟨hfound.2, hrest.2⟩
    · simpa [entryDrafts] using hfound.1

/-- Entries between brackets. -/
theorem bracketed_entries_gives {K : Kind → Bool} {k : Kind} (hord : k.isOrdinary = true)
    (hk : K k = true) (first last : String) : Gives K (Parser.branch k do
      let opening ← Parser.symbol first
      let found ← entries read last n
      return opening :: declarations [] found ++ [← Parser.symbol last]) := by
  intro lo
  refine .branch ((symbol_gives _ _).bind fun opening mid hopening => ?_)
  refine (entries_reads hr _ _ _).bind fun found _ hfound => ?_
  refine (symbol_gives _ _).bind fun closing _ hclosing => .pure ?_
  have hrun : Run Kind.isPlain mid (declarations [] found) _ :=
    declarations_run hfound.2 .nil hfound.1
  exact ((hopening.cons hrun).append hclosing).branchPlain (by simp) hord hk

theorem parameterList_gives {K : Kind → Bool} (hK : K .parameterList = true) :
    Gives K (parameterList n read) :=
  bracketed_entries_gives hr rfl hK _ _

theorem typeParameterList_gives : Gives Kind.isPlain (typeParameterList n read) :=
  bracketed_entries_gives hr rfl rfl _ _

/-- The result of a signature fills the field for it. -/
theorem result?_reads (ctx : Context) : Reads (result? n read ctx) lo
    fun ds hi => Run Kind.isPlain lo ds hi ∧ ∀ d ∈ ds, d.field = some .result := by
  have hnone : Reads (pure []) lo
      fun ds hi => Run Kind.isPlain lo ds hi ∧ ∀ d ∈ ds, d.field = some .result :=
    .pure ⟨.nil, by simp⟩
  unfold result?
  refine .test (.continues _) fun _ => .ite (fun _ => hnone) fun _ => ?_
  refine .test .peek fun t => .ite (fun _ => ?_) fun _ => .ite (fun _ => ?_) fun _ => hnone
  · refine (parameterList_gives hr rfl _).bind fun list _ hlist => .pure ⟨hlist.intoPlain _ rfl, ?_⟩
    simp [Draft.into]
  · refine (typeTermOf_gives hr _ _).bind fun type _ htype => .pure ⟨htype.intoPlain _ rfl, ?_⟩
    simp [Draft.into]

/-- A signature, and the fields that its parts stand in. -/
theorem signature_reads (ctx : Context) : Reads (signature n read ctx) lo
    fun ds hi => Run Kind.isPlain lo ds hi ∧
      ∀ d ∈ ds, d.field = some .parameters ∨ d.field = some .result := by
  refine (parameterList_gives (K := (· == .parameterList)) hr rfl _).bind fun list _ hlist => ?_
  refine (result?_reads hr ctx).bind fun result _ hresult => .pure ?_
  have hlist : Run Kind.isPlain lo [list.into .parameters] _ :=
    Run.kinds (Run.into hlist fun _ hk => hk) fun _ hk => eq_of_beq hk ▸ rfl
  exact ⟨hlist.cons hresult.1,
    List.forall_mem_cons.2 ⟨.inl rfl, fun d hd => .inr (hresult.2 d hd)⟩⟩

theorem signature_gives (ctx : Context) : GivesAll Kind.isPlain (signature n read ctx) := fun _ =>
  (signature_reads hr ctx).mono fun _ _ h => h.1

theorem typeArguments_gives : Gives Kind.isPlain (typeArguments n read) := by
  intro lo
  have hitem : GivesAll Kind.isPlain (do return [← type read .enclosed]) := fun lo =>
    (type_gives hr _ lo).bind fun _ _ htype => .pure htype
  unfold typeArguments
  refine .branch ((symbol_gives _ _).bind fun opening _ hopening => .test (.nextIs _) fun _ => ?_)
  refine .ite (fun _ => .failure_bind) fun _ => ?_
  refine (separated_gives hitem n _).bind fun found _ hfound => ?_
  refine (symbol_gives _ _).bind fun closing _ hclosing => .pure ?_
  exact ((hopening.cons hfound).append hclosing).branchPlain (by simp) rfl rfl

theorem namedType_gives (ctx : Context) : Gives Kind.isPlain (namedType n read ctx) := by
  intro lo
  unfold namedType
  refine .test (.peekAfter _) fun _ => .test (.peekAfter _) fun _ => ?_
  extract_lets rest
  have hrest : ∀ name mid, Run Kind.isPlain lo [name] mid →
      Reads (rest name) mid fun d hi => Run Kind.isPlain lo [d] hi := by
    intro name mid hname
    refine .test (.continuesWith _ _) fun _ => .ite (fun _ => ?_) fun _ => .pure hname
    refine (typeArguments_gives hr _).bind fun arguments _ harguments => .pure ?_
    exact ((hname.intoPlain _ rfl).cons (harguments.intoPlain _ rfl)).branchPlain (by simp) rfl rfl
  refine .ite (fun _ => Reads.bind (.branch ?_) hrest) fun _ => (nameAs_gives rfl rfl _).bind hrest
  refine (nameAs_gives rfl rfl _).bind fun package _ hpackage => ?_
  refine (symbol_gives _ _).bind fun dot _ hdot => ?_
  refine (wordAs_gives rfl rfl _).bind fun name _ hname => .pure ?_
  exact ((hpackage.intoPlain _ rfl).cons (hdot.cons (hname.intoPlain _ rfl))).branchPlain
    (by simp) rfl rfl

end

theorem escapes_run {escapes : List Span} (h : Span.InOrder lo escapes hi) :
    Run Kind.isPlain lo (escapes.map (leaf .escapeSequence)) hi := by
  induction escapes generalizing lo with
  | nil => exact h
  | cons escape escapes ih => exact ⟨h.1, .leaf h.2.1 (by simp) rfl, rfl, ih h.2.2⟩

/-- A string literal, with its quotes and escapes, stands where its token does. -/
theorem string_run {K : Kind → Bool} {t : Token} {ts : List Token}
    (hK : K .interpretedStringLiteral = true) (hraw : K .rawStringLiteral = true)
    (h : Token.Placed lo (t :: ts)) : Run K lo [string t] t.span.stop.byte := by
  obtain ⟨hlo, hforward, -, hescapes, -, -⟩ := h
  unfold string
  split
  next escapes hcls =>
    obtain ⟨q, hq, horder⟩ := hescapes escapes hcls
    have hquote : (t.span.start.advance '"').byte = t.span.start.byte + 1 := rfl
    have hopening : Run Kind.isPlain lo
        [leaf (.token "\"") ⟨t.span.start, t.span.start.advance '"'⟩] (t.span.start.byte + 1) :=
      Run.single hlo (.leaf (by simp [hquote]) (by simp) rfl) rfl
    have hclosing : ∀ last : Position, last.byte = q + 1 → Run Kind.isPlain q
        [leaf (.token "\"") ⟨⟨last.byte - 1, last.row, last.column - 1⟩, last⟩] last.byte :=
      fun last hlast => Run.single (by simp [leaf, hlast])
        (.leaf (Nat.sub_le _ 1) (by simp) rfl) rfl
    refine Run.branchPlain ?_ (by simp) rfl hK
    exact (hopening.cons (escapes_run horder)).append (hclosing _ hq.symm)
  next => exact Run.single hlo (.leaf hforward (by simp) rfl) hraw

theorem stringLiteral_gives {K : Kind → Bool} (hK : K .interpretedStringLiteral = true)
    (hraw : K .rawStringLiteral = true) : Gives K stringLiteral := by
  intro lo ts d ts' hts hrun
  cases ts with
  | nil => cases hrun
  | cons t ts =>
    have hrun : (if isString t then some (string t, ts) else none) = some (d, ts') := by
      rw [← hrun]
      change _ = (if isString t then _ else _ : Parser Draft) (t :: ts)
      split <;> rfl
    obtain ⟨-, heq⟩ := Option.ite_none_right_eq_some.1 hrun
    obtain ⟨rfl, rfl⟩ := Prod.mk.inj (Option.some.inj heq)
    exact ⟨_, hts.2.2.2.2.2, string_run hK hraw hts⟩

section

variable (hr : SoundReader read)
include hr

theorem embeddedField_reads :
    Reads (embeddedField n read) lo fun ds hi => Run Kind.isPlain lo ds hi ∧ ds ≠ [] := by
  unfold embeddedField
  refine .test (.nextIs _) fun _ => ?_
  extract_lets rest
  have hrest : ∀ star mid, Run Kind.isPlain lo star mid →
      Reads (rest star) mid fun ds hi => Run Kind.isPlain lo ds hi ∧ ds ≠ [] := by
    intro star mid hstar
    refine (namedType_gives hr _ _).bind fun type _ htype => .pure ⟨?_, by simp⟩
    exact hstar.append (htype.intoPlain _ rfl)
  refine .ite (fun _ => ?_) fun _ => hrest [] lo .nil
  exact (symbol_gives _ _).bind fun star _ hstar => hrest [star] _ hstar

theorem namedFields_reads :
    Reads (namedFields n read) lo fun ds hi => Run Kind.isPlain lo ds hi ∧ ds ≠ [] := by
  have hname : Gives Kind.isPlain (do return (← Parser.nameAs .fieldIdentifier).into .name) :=
    fun lo => (nameAs_gives rfl rfl lo).bind fun _ _ hname => .pure (hname.intoPlain _ rfl)
  unfold namedFields
  refine (commas_reads hname rfl n _).bind fun names _ hnames => .test (.continues _) fun _ => ?_
  refine .ite (fun _ => .failure_bind) fun _ => ?_
  refine (type_gives hr _ _).bind fun type _ htype => .pure ⟨?_, by simp⟩
  exact hnames.1.append (htype.intoPlain _ rfl)

theorem fieldDeclaration_gives : Gives Kind.isPlain (fieldDeclaration n read) := by
  intro lo
  unfold fieldDeclaration
  refine .branch (Reads.bind (.orElse (namedFields_reads hr) (embeddedField_reads hr)) ?_)
  intro found mid hfound
  refine .test .peek fun _ => .test (.continues _) fun _ => ?_
  extract_lets rest
  have hrest : ∀ tag hi, Run Kind.isPlain mid tag hi → Reads (rest tag) hi
      fun ds hi => Run Kind.isPlain lo [branch .fieldDeclaration ds] hi := fun tag hi htag =>
    .pure ((hfound.1.append htag).branchPlain (by simp [hfound.2]) rfl rfl)
  refine .ite (fun _ => ?_) fun _ => hrest [] mid .nil
  exact (stringLiteral_gives rfl rfl _).bind fun tag _ htag => hrest _ _ (htag.intoPlain _ rfl)

theorem fieldDeclarationList_gives : Gives Kind.isPlain (fieldDeclarationList n read) :=
  .enclosed (terminated_gives (fieldDeclaration_gives hr) (fun _ h => h) n) (by simp) rfl rfl

theorem structType_gives : Gives Kind.isPlain (structType n read) := by
  intro lo
  refine .branch ((keyword_gives _ _).bind fun word _ hword => ?_)
  refine (fieldDeclarationList_gives hr _).bind fun list _ hlist => .pure ?_
  exact (hword.cons hlist).branchPlain (by simp) rfl rfl

theorem structTerm_gives : Gives Kind.isPlain (structTerm n read) := by
  intro lo
  unfold structTerm
  refine .branch (.test (.nextIs _) fun _ => .test (.nextIs _) fun _ => ?_)
  extract_lets rest
  have hrest : ∀ mark mid, Run Kind.isPlain lo mark mid → Reads (rest mark) mid
      fun ds hi => Run Kind.isPlain lo [branch .structTerm ds] hi := by
    intro mark mid hmark
    refine (structType_gives hr _).bind fun type _ htype => .pure ?_
    exact (hmark.append htype).branchPlain (by simp) rfl rfl
  refine .ite (fun _ => ?_) fun _ => .ite (fun _ => ?_) fun _ => hrest [] lo .nil
  all_goals exact (symbol_gives _ _).bind fun mark _ hmark => hrest [mark] _ hmark

theorem structElem_reads : ∀ m lo, Reads (structElem n read m) lo fun ds hi =>
    Run Kind.isPlain lo ds hi ∧ ds ≠ []
  | 0, _ => .failure
  | m + 1, lo => by
    rw [structElem]
    refine (structTerm_gives hr _).bind fun term _ hterm => .test (.continuesWith _ _) fun _ => ?_
    refine .ite (fun _ => ?_) fun _ => .pure ⟨hterm, by simp⟩
    refine (symbol_gives _ _).bind fun bar _ hbar => ?_
    refine (structElem_reads m _).bind fun rest _ hrest => .pure ⟨?_, by simp⟩
    exact hterm.cons (hbar.cons hrest.1)

theorem methodSpec_gives : Gives Kind.isPlain (methodSpec n read) := by
  intro lo
  refine .branch ((nameAs_gives rfl rfl _).bind fun name _ hname => ?_)
  refine (signature_gives hr _ _).bind fun parts _ hparts => .pure ?_
  exact ((hname.intoPlain _ rfl).cons hparts).branchPlain (by simp) rfl rfl

theorem interfaceElement_gives : Gives Kind.isPlain (interfaceElement n read) := by
  intro lo
  unfold interfaceElement
  refine .test .peek fun _ => .test (.peekAfter _) fun _ =>
    .ite (fun _ => methodSpec_gives hr _) fun _ => .orElse ?_ ?_
  · refine .branch ((structElem_reads hr _ _).mono fun ds _ hds => ?_)
    exact hds.1.branchPlain hds.2 rfl rfl
  · refine .branch ((type_gives hr _ _).bind fun type _ htype => .pure ?_)
    exact htype.branchPlain (by simp) rfl rfl

theorem interfaceType_gives : Gives Kind.isPlain (interfaceType n read) := by
  intro lo
  refine .branch ((keyword_gives _ _).bind fun word _ hword => ?_)
  refine (symbol_gives _ _).bind fun opening _ hopening => ?_
  refine (terminated_gives (interfaceElement_gives hr) (fun _ h => h) _ _).bind
    fun found _ hfound => ?_
  refine (symbol_gives _ _).bind fun closing _ hclosing => .pure ?_
  exact ((hword.cons (hopening.cons hfound)).append hclosing).branchPlain (by simp) rfl rfl

theorem sequenceType_gives (ctx : Context) : Gives Kind.isPlain (sequenceType read ctx) := by
  intro lo
  unfold sequenceType
  refine (symbol_gives _ _).bind fun opening _ hopening => .test (.nextIs _) fun _ => ?_
  refine .ite (fun _ => ?_) fun _ => .test (.nextIs _) fun _ => .test (.peekAfter _) fun _ =>
    .ite (fun _ => ?_) fun _ => ?_
  · refine (symbol_gives _ _).bind fun closing _ hclosing => ?_
    refine (type_gives hr _ _).bind fun type _ htype => .pure ?_
    exact (hopening.cons (hclosing.cons (htype.intoPlain _ rfl))).branchPlain (by simp) rfl rfl
  · refine (symbol_gives _ _).bind fun dots _ hdots => ?_
    refine (symbol_gives _ _).bind fun closing _ hclosing => ?_
    refine (type_gives hr _ _).bind fun type _ htype => .pure ?_
    exact (hopening.cons (hdots.cons (hclosing.cons (htype.intoPlain _ rfl)))).branchPlain
      (by simp) rfl rfl
  · refine (expression_gives hr _ _).bind fun length _ hlength => ?_
    refine (symbol_gives _ _).bind fun closing _ hclosing => .test (.continues _) fun _ => ?_
    refine .ite (fun _ => .failure_bind) fun _ => ?_
    refine (type_gives hr _ _).bind fun type _ htype => .pure ?_
    exact (hopening.cons
      ((hlength.intoPlain _ rfl).cons (hclosing.cons (htype.intoPlain _ rfl)))).branchPlain
        (by simp) rfl rfl

theorem mapType_gives (ctx : Context) : Gives Kind.isPlain (mapType read ctx) := by
  intro lo
  refine .branch ((keyword_gives _ _).bind fun word _ hword => ?_)
  refine (symbol_gives _ _).bind fun opening _ hopening => ?_
  refine (type_gives hr _ _).bind fun key _ hkey => ?_
  refine (symbol_gives _ _).bind fun closing _ hclosing => ?_
  refine (type_gives hr _ _).bind fun value _ hvalue => .pure ?_
  have hbrackets :=
    hopening.cons ((hkey.intoPlain .key rfl).cons (hclosing.cons (hvalue.intoPlain .value rfl)))
  exact (hword.cons hbrackets).branchPlain (by simp) rfl rfl

theorem channelType_gives (ctx : Context) : Gives Kind.isPlain (channelType read ctx) := by
  intro lo
  unfold channelType
  refine .branch (.test (.nextIs _) fun _ => ?_)
  extract_lets rest
  have hrest : ∀ words mid, Run Kind.isPlain lo words mid → Reads (rest words) mid
      fun ds hi => Run Kind.isPlain lo [branch .channelType ds] hi := by
    intro words mid hwords
    refine (type_gives hr _ _).bind fun value _ hvalue => .pure ?_
    exact (hwords.append (hvalue.intoPlain _ rfl)).branchPlain (by simp) rfl rfl
  refine .ite (fun _ => ?_) fun _ => ?_
  · refine (symbol_gives _ _).bind fun arrow _ harrow => ?_
    exact (keyword_gives _ _).bind fun word _ hword => hrest [arrow, word] _ (harrow.cons hword)
  · refine (keyword_gives _ _).bind fun word _ hword => .test (.nextIs _) fun _ => ?_
    refine .ite (fun _ => ?_) fun _ => hrest [word] _ hword
    exact (symbol_gives _ _).bind fun arrow _ harrow => hrest [word, arrow] _ (hword.cons harrow)

theorem functionType_gives (ctx : Context) : Gives Kind.isPlain (functionType n read ctx) := by
  intro lo
  refine .branch ((keyword_gives _ _).bind fun word _ hword => ?_)
  refine (signature_gives hr _ _).bind fun parts _ hparts => .pure ?_
  exact (hword.cons hparts).branchPlain (by simp) rfl rfl

theorem parenthesizedType_gives : Gives Kind.isPlain (parenthesizedType read) := by
  intro lo
  refine .branch ((symbol_gives _ _).bind fun opening _ hopening => ?_)
  refine (type_gives hr _ _).bind fun type _ htype => ?_
  refine (symbol_gives _ _).bind fun closing _ hclosing => .pure ?_
  exact (hopening.cons (htype.cons hclosing)).branchPlain (by simp) rfl rfl

/-- A mark and the type after it. -/
theorem marked_gives {k : Kind} (hord : k.isOrdinary = true) (hk : k.isPlain = true) (mark : String)
    (ctx : Context) : Gives Kind.isPlain (Parser.branch k do
      return [← Parser.symbol mark, ← read (.typeTerm ctx)]) := by
  intro lo
  refine .branch ((symbol_gives _ _).bind fun mark _ hmark => ?_)
  refine (typeTermOf_gives hr _ _).bind fun type _ htype => .pure ?_
  exact (hmark.cons htype).branchPlain (by simp) hord hk

theorem typeTerm_gives (ctx : Context) : Gives Kind.isPlain (typeTerm n read ctx) := by
  intro lo
  unfold typeTerm
  refine .test .peek fun t => .ite (fun _ => namedType_gives hr _ _) fun _ => ?_
  refine .ite (fun _ => marked_gives hr rfl rfl _ _ _) fun _ => ?_
  refine .ite (fun _ => marked_gives hr rfl rfl _ _ _) fun _ => ?_
  refine .ite (fun _ => parenthesizedType_gives hr _) fun _ => ?_
  refine .ite (fun _ => sequenceType_gives hr _ _) fun _ => ?_
  refine .ite (fun _ => channelType_gives hr _ _) fun _ => ?_
  refine .ite (fun _ => mapType_gives hr _ _) fun _ => ?_
  refine .ite (fun _ => functionType_gives hr _ _) fun _ => ?_
  refine .ite (fun _ => structType_gives hr _) fun _ => ?_
  exact .ite (fun _ => interfaceType_gives hr _) fun _ => .failure

theorem unionRest_reads {left : Draft} (hleft : Run Kind.isPlain lo [left] mid) (n : Nat) :
    Reads (unionRest read ctx left n) mid fun d hi => Run Kind.isPlain lo [d] hi := by
  induction n generalizing left mid with
  | zero => exact .failure
  | succ n ih =>
    rw [unionRest]
    refine .test (.continuesWith _ _) fun _ => .ite (fun _ => ?_) fun _ => .pure hleft
    refine (symbol_gives _ _).bind fun bar _ hbar => ?_
    refine (typeTermOf_gives hr _ _).bind fun right _ hright => ih ?_
    exact (hleft.cons (hbar.cons hright)).branchPlain (by simp) rfl rfl

theorem typeRule_gives (ctx : Context) : Gives Kind.isPlain (typeRule n read ctx) := fun _ =>
  (typeTermOf_gives hr _ _).bind fun _ _ hleft => unionRest_reads hr hleft n

end

end Handoff.Syntax.Grammar

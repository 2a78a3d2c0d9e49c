import Handoff.Proofs.Syntax.Layout
import Handoff.Proofs.Syntax.Lexical
import Handoff.Syntax.Grammar.Parser

/-!
# What parsers read

`Reads p lo post` says what a parser gives when it reads tokens that start at a byte: the result
satisfies `post`, together with the byte from which the rest of the tokens stands. Rules are
followed step by step with `Reads.bind`; looking ahead, `Reads.test`, changes nothing.

## Main definitions

* `Reads`: what holds of the result of a parser.
* `Gives`, `GivesAll`: a parser gives one draft, or a run of drafts, of some kinds.
* `Reader.Sound`: each phrase gives drafts of its kinds.
-/

namespace Handoff.Syntax.Grammar

open Draft

variable {α β : Type} {K K' : Kind → Bool} {lo mid hi : Nat}

/-- What holds of everything a parser reads from a byte on, with the byte at which the rest
starts. -/
def Reads (p : Parser α) (lo : Nat) (post : α → Nat → Prop) : Prop :=
  ∀ ts a ts', Token.Placed lo ts → p ts = some (a, ts') → ∃ hi, Token.Placed hi ts' ∧ post a hi

namespace Reads

variable {p q : Parser α} {f : α → Parser β} {post post' : α → Nat → Prop} {goal : β → Nat → Prop}

protected theorem pure {a : α} (h : post a lo) : Reads (pure a) lo post := by
  rintro ts _ _ hts ⟨⟩
  exact ⟨lo, hts, h⟩

protected theorem failure : Reads (failure : Parser α) lo post := by
  rintro ts a ts' _ ⟨⟩

theorem failure_bind : Reads ((failure : Parser α) >>= f) lo goal := by
  rintro ts b ts' _ ⟨⟩

protected theorem bind (hp : Reads p lo post) (h : ∀ a mid, post a mid → Reads (f a) mid goal) :
    Reads (p >>= f) lo goal := by
  intro ts b ts' hts hrun
  obtain ⟨⟨a, mid⟩, hfirst, hsecond⟩ := Option.bind_eq_some_iff.1 hrun
  obtain ⟨at_, hmid, hpost⟩ := hp ts a mid hts hfirst
  exact h a at_ hpost mid b ts' hmid hsecond

protected theorem mono (hp : Reads p lo post) (h : ∀ a hi, post a hi → post' a hi) :
    Reads p lo post' := by
  intro ts a ts' hts hrun
  obtain ⟨hi, hrest, hpost⟩ := hp ts a ts' hts hrun
  exact ⟨hi, hrest, h a hi hpost⟩

protected theorem orElse (hp : Reads p lo post) (hq : Reads q lo post) :
    Reads (p <|> q) lo post := by
  intro ts a ts' hts hrun
  have hrun : (p ts).or (q ts) = some (a, ts') := by
    rw [← hrun]
    change _ = (p ts).orElse fun _ => q ts
    cases p ts <;> rfl
  obtain hrun | ⟨-, hrun⟩ := Option.or_eq_some_iff.1 hrun
  · exact hp ts a ts' hts hrun
  · exact hq ts a ts' hts hrun

protected theorem ite {c : Prop} [Decidable c] (hp : c → Reads p lo post)
    (hq : ¬ c → Reads q lo post) : Reads (if c then p else q) lo post := by
  split
  next h => exact hp h
  next h => exact hq h

end Reads

/-- A parser that takes no token. -/
def IsTest (p : Parser α) : Prop :=
  ∀ ts a ts', p ts = some (a, ts') → ts' = ts

theorem Reads.test {p : Parser α} {f : α → Parser β} {goal : β → Nat → Prop} (hp : IsTest p)
    (h : ∀ a, Reads (f a) lo goal) : Reads (p >>= f) lo goal := by
  have hread : Reads p lo fun _ mid => mid = lo := fun ts a ts' hts hrun =>
    ⟨lo, hp ts a ts' hrun ▸ hts, rfl⟩
  refine hread.bind ?_
  rintro a _ rfl
  exact h a

namespace IsTest

protected theorem pure (a : α) : IsTest (pure a) := by
  rintro ts _ _ ⟨⟩
  rfl

protected theorem bind {p : Parser α} {f : α → Parser β} (hp : IsTest p) (hf : ∀ a, IsTest (f a)) :
    IsTest (p >>= f) := by
  intro ts b ts' hrun
  obtain ⟨⟨a, mid⟩, hfirst, hsecond⟩ := Option.bind_eq_some_iff.1 hrun
  rw [hf a mid b ts' hsecond, hp ts a mid hfirst]

theorem peek : IsTest Parser.peek := by
  intro ts t ts' hrun
  cases ts with
  | nil => cases hrun
  | cons t ts =>
    cases hrun
    rfl

theorem peekAfter (n : Nat) : IsTest (Parser.peekAfter n) := by
  rintro ts _ _ ⟨⟩
  rfl

theorem continues (ctx : Context) : IsTest (Parser.continues ctx) :=
  .bind peek fun _ => .pure _

theorem nextIs (text : String) : IsTest (Parser.nextIs text) :=
  .bind peek fun _ => .pure _

theorem nextIsWord (text : String) : IsTest (Parser.nextIsWord text) :=
  .bind peek fun _ => .pure _

theorem continuesWith (ctx : Context) (text : String) : IsTest (Parser.continuesWith ctx text) :=
  .bind (continues ctx) fun _ => .bind (nextIs text) fun _ => .pure _

end IsTest

def Gives (K : Kind → Bool) (p : Parser Draft) : Prop :=
  ∀ lo, Reads p lo fun d hi => Run K lo [d] hi

def GivesAll (K : Kind → Bool) (p : Parser (List Draft)) : Prop :=
  ∀ lo, Reads p lo (Run K lo)

/-! ### Tokens -/

theorem tokenIf_cons (p : Token → Bool) (kind : Token → Kind) (t : Token) (ts : List Token) :
    Parser.tokenIf p kind (t :: ts) = if p t then some (leaf (kind t) t.span, ts) else none := by
  change (if p t then _ else _ : Parser Draft) (t :: ts) = _
  split <;> rfl

/-- A token that passes a test is a leaf. -/
theorem tokenIf_gives {p : Token → Bool} {kind : Token → Kind}
    (hK : ∀ t, (kind t).isAmong K = true) (hshaped : ∀ t, (kind t).isShaped = false)
    (hname : ∀ t, p t = true → (kind t).isName = true → t.cls = .word ∨ t.text ≠ "") :
    Gives K (Parser.tokenIf p kind) := by
  intro lo ts d ts' hts hrun
  cases ts with
  | nil => cases hrun
  | cons t ts =>
    obtain ⟨hlo, hforward, hnonempty, -, -, hrest⟩ := hts
    obtain ⟨hp, heq⟩ := Option.ite_none_right_eq_some.1 ((tokenIf_cons p kind t ts).symm.trans hrun)
    obtain ⟨rfl, rfl⟩ := Prod.mk.inj (Option.some.inj heq)
    exact ⟨_, hrest, hlo, .leaf hforward (fun hk => hnonempty (hname t hp hk)) (hshaped t), hK t,
      Nat.le_refl _⟩

theorem symbol_gives (text : String) : Gives Kind.isPlain (Parser.symbol text) :=
  tokenIf_gives (fun _ => rfl) (fun _ => rfl) (by simp +contextual)

theorem keyword_gives (text : String) : Gives Kind.isPlain (Parser.keyword text) :=
  tokenIf_gives (fun _ => rfl) (fun _ => rfl) (by simp +contextual)

/-- A token that is asked for by its text covers some text and fills no field. -/
theorem tokenIf_marks {p : Token → Bool} (hp : ∀ t, p t = true → t.cls = .word ∨ t.text ≠ "") :
    Reads (Parser.tokenIf p fun t => .token t.text) lo
      fun d hi => Run Kind.isPlain lo [d] hi ∧ d.outline.IsMark := by
  intro ts d ts' hts hrun
  obtain ⟨hi, hrest, hd⟩ := tokenIf_gives (K := Kind.isPlain) (fun _ => rfl) (fun _ => rfl)
    (by simp +contextual) lo ts d ts' hts hrun
  refine ⟨hi, hrest, hd, ?_⟩
  cases ts with
  | nil => cases hrun
  | cons t ts =>
    obtain ⟨hpt, heq⟩ := Option.ite_none_right_eq_some.1 ((tokenIf_cons p _ t ts).symm.trans hrun)
    obtain ⟨rfl, rfl⟩ := Prod.mk.inj (Option.some.inj heq)
    exact ⟨⟨t.text, rfl⟩, hts.2.2.1 (hp t hpt), rfl⟩

theorem symbol_marks {text : String} (h : text ≠ "") :
    Reads (Parser.symbol text) lo fun d hi => Run Kind.isPlain lo [d] hi ∧ d.outline.IsMark :=
  tokenIf_marks fun t ht => .inr (by simp_all [Token.isOperator])

theorem keyword_marks (text : String) :
    Reads (Parser.keyword text) lo fun d hi => Run Kind.isPlain lo [d] hi ∧ d.outline.IsMark :=
  tokenIf_marks fun t ht => .inl (by simp_all [Token.isWord])

theorem nameAs_gives_of {k : Kind} (hK : k.isAmong K = true) (hshaped : k.isShaped = false) :
    Gives K (Parser.nameAs k) :=
  tokenIf_gives (fun _ => hK) (fun _ => hshaped) (by simp +contextual [Token.isName])

theorem nameAs_gives {k : Kind} (hk : k.isAmong Kind.isPlain = true)
    (hshaped : k.isShaped = false) : Gives Kind.isPlain (Parser.nameAs k) :=
  nameAs_gives_of hk hshaped

theorem wordAs_gives {k : Kind} (hk : k.isAmong Kind.isPlain = true)
    (hshaped : k.isShaped = false) : Gives Kind.isPlain (Parser.wordAs k) :=
  tokenIf_gives (fun _ => hk) (fun _ => hshaped) (by simp +contextual)

/-- A terminator is the end of a line, a semicolon, or nothing before what closes. -/
theorem terminator?_cons (t : Token) (ts : List Token) :
    Parser.terminator? (t :: ts) =
      match t.newline with
      | some run => some (some (leaf (.token "\n") run), { t with newline := none } :: ts)
      | none =>
        if t.isOperator ";" then some (some (leaf (.token ";") t.span), ts)
        else some (none, t :: ts) := by
  obtain ⟨cls, text, span, newline⟩ := t
  cases newline with
  | some run => rfl
  | none =>
    change (if Token.isOperator _ _ = true then _ else _ : Parser _) _ = ite _ _ _
    split <;> rfl

/-- A terminator stands before the next token, if there is one. -/
theorem terminator?_reads :
    Reads Parser.terminator? lo fun ending hi => Run Kind.isPlain lo ending.toList hi := by
  intro ts ending ts' hts hrun
  cases ts with
  | nil => cases hrun
  | cons t ts =>
    obtain ⟨hlo, hforward, hword, hescapes, hnewline, hrest⟩ := hts
    rw [terminator?_cons] at hrun
    split at hrun
    next run hn =>
      obtain ⟨rfl, rfl⟩ := Prod.mk.inj (Option.some.inj hrun)
      obtain ⟨hafter, hrun, hbefore⟩ := hnewline run hn
      exact ⟨run.stop.byte, ⟨hbefore, hforward, hword, hescapes, by simp, hrest⟩,
        Run.single hafter (.leaf hrun (by simp) rfl) rfl⟩
    next =>
      split at hrun
      · obtain ⟨rfl, rfl⟩ := Prod.mk.inj (Option.some.inj hrun)
        exact ⟨_, hrest, Run.single hlo (.leaf hforward (by simp) rfl) rfl⟩
      · obtain ⟨rfl, rfl⟩ := Prod.mk.inj (Option.some.inj hrun)
        exact ⟨lo, ⟨hlo, hforward, hword, hescapes, hnewline, hrest⟩, Nat.le_refl lo⟩

/-! ### Combinators -/

protected theorem Reads.branch {kind : Kind} {p : Parser (List Draft)} {post : Draft → Nat → Prop}
    (h : Reads p lo fun ds hi => post (.branch kind ds) hi) :
    Reads (Parser.branch kind p) lo post :=
  h.bind fun _ _ hds => .pure hds

/-- What stands between two brackets. -/
theorem Reads.enclosed {p : Parser (List Draft)} (hp : GivesAll K p)
    (hK : ∀ k, k.isPlain = true → K k = true) {first : String} (hfirst : first ≠ "")
    (last : String) : Reads (do
      let opening ← Parser.symbol first
      let found ← p
      return opening :: found ++ [← Parser.symbol last]) lo
      fun ds hi => ∃ opening rest, ds = opening :: rest ∧ opening.outline.IsMark ∧
        Run K lo ds hi := by
  refine (symbol_marks hfirst).bind fun opening _ hopening => (hp _).bind fun found _ hfound => ?_
  refine (symbol_gives _ _).bind fun closing _ hclosing => .pure ⟨_, _, rfl, hopening.2, ?_⟩
  exact ((hopening.1.kinds hK).cons hfound).append (hclosing.kinds hK)

/-- A branch over what stands between two brackets. -/
theorem Gives.enclosed {p : Parser (List Draft)} {k : Kind} {first last : String}
    (hp : GivesAll Kind.isPlain p) (hfirst : first ≠ "") (hbranch : k.isBranch = true)
    (hk : K k = true) : Gives K (Parser.branch k do
      let opening ← Parser.symbol first
      let found ← p
      return opening :: found ++ [← Parser.symbol last]) := fun _ =>
  .branch <| .mono (.enclosed hp (fun _ h => h) hfirst _) fun _ _ ⟨_, _, heq, hmark, hds⟩ => by
    subst heq
    exact hds.branchOpened hmark hbranch hk fun _ _ h => h

variable {close : String} {item : Parser (List Draft)}

theorem separated_gives (h : GivesAll Kind.isPlain item) :
    ∀ n, GivesAll Kind.isPlain (Parser.separated close item n)
  | 0 => fun _ => .failure
  | n + 1 => fun lo => by
    rw [Parser.separated]
    refine .test (.nextIs _) fun _ => .ite (fun _ => .pure .nil) fun _ => ?_
    refine (h lo).bind fun found mid hfound => .test (.nextIs _) fun _ =>
      .ite (fun _ => ?_) fun _ => ?_
    · refine (symbol_gives _ _).bind fun comma mid hcomma => ?_
      exact (separated_gives h n mid).bind fun rest hi hrest =>
        .pure (hfound.append (hcomma.cons hrest))
    · exact .pure hfound

theorem comma_gives (hK : K (.token ",") = true) : Gives K (Parser.symbol ",") := by
  intro lo ts d ts' hts hrun
  obtain ⟨hi, hrest, hlo, htidy, -, hhi⟩ := symbol_gives _ lo ts d ts' hts hrun
  refine ⟨hi, hrest, hlo, htidy, ?_, hhi⟩
  cases ts with
  | nil => cases hrun
  | cons t ts =>
    obtain ⟨ht, heq⟩ := Option.ite_none_right_eq_some.1 ((tokenIf_cons _ _ t ts).symm.trans hrun)
    obtain ⟨rfl, rfl⟩ := Prod.mk.inj (Option.some.inj heq)
    have htext : t.text = "," := by simp_all [Token.isOperator]
    simpa [leaf, htext, Kind.isAmong] using hK

/-- One item or more, with commas between them. -/
theorem commas_reads {ctx : Context} {item : Parser Draft} (h : Gives K item)
    (hK : K (.token ",") = true) :
    ∀ n lo, Reads (Parser.commas ctx item n) lo fun ds hi => Run K lo ds hi ∧ ds ≠ []
  | 0, _ => .failure
  | n + 1, lo => by
    rw [Parser.commas]
    refine (h lo).bind fun found mid hfound =>
      .test (.continuesWith _ _) fun _ => .ite (fun _ => ?_) fun _ => ?_
    · refine (comma_gives hK _).bind fun comma mid hcomma => ?_
      refine (commas_reads h hK n mid).bind fun rest hi hrest => .pure ⟨?_, by simp⟩
      exact hfound.cons (hcomma.cons hrest.1)
    · exact .pure ⟨hfound, by simp⟩

/-- Items, each with a terminator behind it. -/
theorem terminated_gives {atEnd : Token → Bool} {item : Parser Draft} (h : Gives K item)
    (hK : ∀ k, k.isPlain = true → K k = true) :
    ∀ n, GivesAll K (Parser.terminated atEnd item n)
  | 0 => fun _ => .failure
  | n + 1 => fun lo => by
    rw [Parser.terminated]
    refine .test .peek fun _ => .ite (fun _ => .pure .nil) fun _ => ?_
    refine (h lo).bind fun found mid hfound => terminator?_reads.bind fun ending mid hending => ?_
    cases ending with
    | some ending =>
      refine (terminated_gives h hK n mid).bind fun rest hi hrest => .pure ?_
      exact hfound.cons ((hending.kinds hK).cons hrest)
    | none =>
      refine .test .peek fun _ => .ite (fun _ => .pure ?_) fun _ => .failure
      exact hfound.widen (Nat.le_refl _) hending

/-! ### Phrases -/

def Phrase.kinds : Phrase → Kind → Bool
  | .block => (· == .block)
  | .literalValue => (· == .literalValue)
  | .statement | .ifStatement => Kind.isItem
  | _ => Kind.isPlain

def SoundReader (read : Reader) : Prop :=
  ∀ p : Phrase, Gives p.kinds (read p)

/-- A block, or the elements of a composite literal, as a body. -/
theorem run_body {d : Draft} {k : Kind} (h : Run (· == k) lo [d] hi)
    (hbody : Field.body.allows k = true) (hK : K k = true) : Run K lo [d.into .body] hi :=
  Run.kinds (Run.into h fun _ hk => eq_of_beq hk ▸ hbody) fun _ hk => eq_of_beq hk ▸ hK

theorem SoundReader.block {read : Reader} (hr : SoundReader read) :
    Gives Kind.isItem (read .block) :=
  fun lo => (hr .block lo).mono fun _ _ h => h.kinds fun k hk => by
    rw [eq_of_beq hk]
    rfl

end Handoff.Syntax.Grammar

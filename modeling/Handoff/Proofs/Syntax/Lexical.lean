import Handoff.Syntax.Token
import Mathlib.Data.List.Infix

/-!
# Tokens stand in the order of the text

The tokens of a text follow one another, each run of line feeds lies between two tokens, and the
escapes of a string lie between its quotes.

## Main definitions

* `Span.InOrder`: spans one after the other between two bytes.
* `Token.Placed`: tokens one after the other from a byte on.
-/

namespace Handoff.Syntax

namespace Position

variable (p : Position)

theorem byte_lt_advance (c : Char) : p.byte < (p.advance c).byte := by
  unfold advance
  split
  · exact Nat.lt_succ_self _
  · exact Nat.lt_add_of_pos_right c.utf8Size_pos

theorem byte_le_advanceAll (cs : List Char) : p.byte ≤ (p.advanceAll cs).byte := by
  induction cs generalizing p with
  | nil => exact Nat.le_refl _
  | cons c cs ih => exact Nat.le_trans (Nat.le_of_lt (p.byte_lt_advance c)) (ih (p.advance c))

theorem byte_lt_advanceAll {cs : List Char} (h : cs ≠ []) : p.byte < (p.advanceAll cs).byte := by
  obtain ⟨c, cs, rfl⟩ := List.exists_cons_of_ne_nil h
  exact Nat.lt_of_lt_of_le (p.byte_lt_advance c) ((p.advance c).byte_le_advanceAll cs)

theorem advanceAll_append (cs ds : List Char) :
    p.advanceAll (cs ++ ds) = (p.advanceAll cs).advanceAll ds :=
  List.foldl_append

end Position

def Span.InOrder : Nat → List Span → Nat → Prop
  | lo, [], hi => lo ≤ hi
  | lo, s :: ss, hi =>
    lo ≤ s.start.byte ∧ s.start.byte ≤ s.stop.byte ∧ InOrder s.stop.byte ss hi

theorem Span.InOrder.widen {lo lo' hi : Nat} {ss : List Span} (h : InOrder lo ss hi)
    (hlo : lo' ≤ lo) :
    InOrder lo' ss hi := by
  cases ss with
  | nil => exact Nat.le_trans hlo h
  | cons s ss => exact ⟨Nat.le_trans hlo h.1, h.2⟩

namespace Form

/-- A form leaves an end of the text. -/
def Leaves (form : Form) : Prop :=
  ∀ cs rest, form cs = some rest → rest <:+ cs

theorem char_leaves (p : Char → Bool) : Leaves (char p) := by
  intro cs rest h
  cases cs with
  | nil => cases h
  | cons c cs =>
    rw [char, Option.ite_none_right_eq_some] at h
    obtain ⟨-, rfl⟩ : _ ∧ cs = rest := by simpa using h
    exact List.suffix_cons c cs

theorem oneOf_leaves (choices : List Char) : Leaves (oneOf choices) :=
  char_leaves _

theorem seq_leaves {forms : List Form} (h : ∀ form ∈ forms, Leaves form) : Leaves (seq forms) := by
  induction forms with
  | nil =>
    rintro cs rest ⟨⟩
    exact List.suffix_refl _
  | cons form forms ih =>
    intro cs rest hseq
    obtain ⟨hform, hforms⟩ := List.forall_mem_cons.1 h
    obtain ⟨mid, hmid, hrest⟩ := Option.bind_eq_some_iff.1 hseq
    exact (ih hforms mid rest hrest).trans (hform cs mid hmid)

theorem opt_leaves {form : Form} (h : Leaves form) : Leaves (opt form) := by
  rintro cs rest ⟨⟩
  cases hf : form cs with
  | none => exact List.suffix_refl _
  | some mid => exact h cs mid hf

theorem many_leaves (p : Char → Bool) : Leaves (many p) := by
  rintro cs rest ⟨⟩
  exact List.dropWhile_suffix p

theorem repeated_leaves (n : Nat) {form : Form} (h : Leaves form) : Leaves (repeated n form) :=
  seq_leaves fun _ hform => (List.eq_of_mem_replicate hform) ▸ h

/-- The longest match is one of the matches. -/
theorem exists_of_longest {forms : List Form} {cs rest : List Char}
    (h : longest forms cs = some rest) : ∃ form ∈ forms, form cs = some rest := by
  revert rest
  unfold longest
  refine List.foldlRecOn forms _ (motive := fun best =>
    ∀ {rest}, best = some rest → ∃ form ∈ forms, form cs = some rest) (by simp) ?_
  intro best hbest form hform rest h
  split at h
  next => exact ⟨form, hform, h⟩
  next => exact hbest h
  next hfound =>
    split at h
    · exact ⟨form, hform, hfound.trans h⟩
    · exact hbest h

theorem longest_leaves {forms : List Form} (h : ∀ form ∈ forms, Leaves form) :
    Leaves (longest forms) := by
  intro cs rest hlongest
  obtain ⟨form, hform, hrest⟩ := exists_of_longest hlongest
  exact h form hform cs rest hrest

theorem escape_leaves : Leaves escape := by
  have hhex (n : Nat) : Leaves (repeated n hexDigit) := repeated_leaves n (char_leaves _)
  have hcode (mark : Char) (n : Nat) : Leaves (seq [oneOf [mark], repeated n hexDigit]) :=
    seq_leaves (by simpa using ⟨oneOf_leaves _, hhex n⟩)
  have hoctal : Leaves (seq [repeated 2 (char Char.isDigit), opt (char Char.isDigit)]) :=
    seq_leaves (by simpa using ⟨repeated_leaves 2 (char_leaves _), opt_leaves (char_leaves _)⟩)
  have hbyte : Leaves (seq [oneOf ['x'], repeated 2 hexDigit, many isHexDigit]) :=
    seq_leaves (by simpa using ⟨oneOf_leaves _, hhex 2, many_leaves _⟩)
  refine seq_leaves (List.forall_mem_cons.2 ⟨oneOf_leaves _, List.forall_mem_singleton.2 ?_⟩)
  refine longest_leaves ?_
  simpa using ⟨char_leaves _, hoctal, hbyte, hcode 'u' 4, hcode 'U' 8⟩

/-- A word takes at least one character. -/
theorem length_lt_of_word {cs rest : List Char} (h : word cs = some rest) :
    rest.length < cs.length := by
  obtain ⟨mid, hmid, hrest⟩ := Option.bind_eq_some_iff.1 h
  have hlen : rest.length ≤ mid.length :=
    (seq_leaves (by simpa using many_leaves _) mid rest hrest).length_le
  cases cs with
  | nil => cases hmid
  | cons c cs =>
    have : mid = cs := by simpa [char, eq_comm] using (Option.ite_none_right_eq_some.1 hmid).2
    subst this
    exact Nat.lt_succ_of_le hlen

end Form

namespace Scan

theorem take_of_suffix {cs rest : List Char} (h : rest <:+ cs) :
    cs.take (cs.length - rest.length) ++ rest = cs := by
  obtain ⟨taken, rfl⟩ := h
  simp

/-- The escapes of a string lie between its quotes. -/
theorem inOrder_stringBody {fuel : Nat} {at_ : Position} {cs rest : List Char} {escapes : List Span}
    (h : stringBody fuel at_ cs = some (escapes, rest)) :
    ∃ body, cs = body ++ '"' :: rest ∧
      Span.InOrder at_.byte escapes (at_.advanceAll body).byte := by
  induction fuel generalizing at_ cs escapes with
  | zero => cases h
  | succ fuel ih =>
    rw [stringBody.eq_def] at h
    dsimp only at h
    split at h
    · cases h
    · cases h
    · obtain ⟨rfl, rfl⟩ : [] = escapes ∧ _ = rest := by simpa using h
      exact ⟨[], rfl, Nat.le_refl _⟩
    next tail =>
      split at h
      · cases h
      next left hescape =>
        obtain ⟨⟨escapes', rest'⟩, hbody, heq⟩ := Option.map_eq_some_iff.1 h
        obtain ⟨rfl, rfl⟩ : _ ∧ rest' = rest := by simpa using heq
        obtain ⟨body, rfl, horder⟩ := ih hbody
        have htaken := take_of_suffix (Form.escape_leaves _ _ hescape)
        refine ⟨_ ++ body, by rw [List.append_assoc]; exact htaken.symm, ?_⟩
        rw [Position.advanceAll_append]
        exact ⟨Nat.le_refl _, Position.byte_le_advanceAll .., horder⟩
    next c tail _ _ _ =>
      obtain ⟨body, rfl, horder⟩ := ih h
      exact ⟨c :: body, rfl, horder.widen (Nat.le_of_lt (at_.byte_lt_advance c))⟩

/-- A number is of one of the classes tried. -/
theorem mem_of_foldl_number {cs rest : List Char} {cls : TokenClass}
    {numbers : List (TokenClass × Form)}
    (h : numbers.foldl (fun best (cls, form) =>
        match best, form cs with
        | none, found => found.map (cls, ·)
        | some b, none => some b
        | some b, some rest => if rest.length < b.2.length then some (cls, rest) else some b) none =
      some (cls, rest)) : cls ∈ numbers.map Prod.fst := by
  refine List.foldlRecOn numbers _ (motive := fun best =>
    ∀ {cls rest}, best = some (cls, rest) → cls ∈ numbers.map Prod.fst) (by simp) ?_ h
  rintro best hbest ⟨cls', form⟩ hnumber cls rest h
  have hself : cls' ∈ numbers.map Prod.fst := List.mem_map_of_mem hnumber
  dsimp only at h
  split at h
  next =>
    obtain ⟨_, _, heq⟩ := Option.map_eq_some_iff.1 h
    exact (Prod.mk.inj heq).1 ▸ hself
  next => exact hbest h
  next =>
    split at h
    · exact (Prod.mk.inj (Option.some.inj h)).1 ▸ hself
    · exact hbest h

/-- The next token is a string, a word, or of another class. -/
theorem next_cases {at_ : Position} {cs rest : List Char} {cls : TokenClass}
    (h : next at_ cs = (cls, rest)) :
    (∃ escapes tail, cls = .string escapes ∧ cs = '"' :: tail ∧
        stringBody cs.length (at_.advance '"') tail = some (escapes, rest)) ∨
      (cls = .word ∧ Form.word cs = some rest) ∨
      (cls ≠ .word ∧ ∀ escapes, cls ≠ .string escapes) := by
  unfold next at h
  split at h
  next =>
    obtain ⟨rfl, -⟩ := Prod.mk.inj h
    exact .inr (.inr ⟨by decide, by simp⟩)
  next c tail =>
    split at h
    next hc =>
      subst hc
      split at h
      next escapes left hbody =>
        obtain ⟨rfl, rfl⟩ := Prod.mk.inj h
        exact .inl ⟨escapes, tail, rfl, rfl, hbody⟩
      next =>
        obtain ⟨rfl, -⟩ := Prod.mk.inj h
        exact .inr (.inr ⟨by decide, by simp⟩)
    next =>
      dsimp only at h
      refine .inr ?_
      obtain h | ⟨-, h⟩ := Option.getD_eq_iff.1 h
      · obtain h | ⟨-, h⟩ := Option.or_eq_some_iff.1 h
        · obtain rfl | rfl | rfl : cls = .imaginary ∨ cls = .float ∨ cls = .int := by
            simpa using mem_of_foldl_number h
          all_goals exact .inr ⟨by decide, by simp⟩
        · obtain ⟨⟨cls', form⟩, hmem, hform⟩ := List.exists_of_findSome?_eq_some h
          obtain ⟨left, hleft, heq⟩ := Option.map_eq_some_iff.1 hform
          obtain ⟨rfl, rfl⟩ := Prod.mk.inj heq
          obtain ⟨rfl, rfl⟩ | ⟨rfl, -⟩ | ⟨rfl, -⟩ | ⟨rfl, -⟩ : _ ∨ _ ∨ _ ∨ _ := by simpa using hmem
          · exact .inl ⟨rfl, hleft⟩
          all_goals exact .inr ⟨by simp, by simp⟩
      · obtain ⟨rfl, -⟩ := Prod.mk.inj h
        exact .inr ⟨by decide, by simp⟩

end Scan

namespace Token

def Placed : Nat → List Token → Prop
  | _, [] => True
  | lo, t :: ts => lo ≤ t.span.start.byte ∧ t.span.start.byte ≤ t.span.stop.byte ∧
    (t.cls = .word ∨ t.text ≠ "" → t.span.start.byte < t.span.stop.byte) ∧
    (∀ escapes, t.cls = .string escapes →
      ∃ q, q + 1 = t.span.stop.byte ∧ Span.InOrder (t.span.start.byte + 1) escapes q) ∧
    (∀ run, t.newline = some run → Span.InOrder lo [run] t.span.start.byte) ∧
    Placed t.span.stop.byte ts

end Token

namespace Scan

/-- The span of the next token, and what lies in it. -/
theorem placed_cons {lo : Nat} {at_ : Position} {newline : Option Span} {cs rest : List Char}
    {cls : TokenClass} {ts : List Token} (hlo : lo ≤ at_.byte)
    (hnewline : ∀ run, newline = some run → Span.InOrder lo [run] at_.byte)
    (hnext : next at_ cs = (cls, rest))
    (hts : Token.Placed (at_.advanceAll (cs.take (cs.length - rest.length))).byte ts) :
    Token.Placed lo
      (⟨cls, String.ofList (cs.take (cs.length - rest.length)),
        ⟨at_, at_.advanceAll (cs.take (cs.length - rest.length))⟩, newline⟩ :: ts) := by
  refine ⟨hlo, Position.byte_le_advanceAll .., ?_, ?_, hnewline, hts⟩
  · refine fun h => Position.byte_lt_advanceAll _ fun hnil => ?_
    obtain rfl | htext := h
    · obtain ⟨escapes, _, ⟨⟩, _⟩ | ⟨-, hword⟩ | ⟨hne, -⟩ := next_cases hnext
      · have hlen := Form.length_lt_of_word hword
        have := congrArg List.length hnil
        simp only [List.length_take, List.length_nil] at this
        omega
      · exact absurd rfl hne
    · exact htext (by rw [hnil])
  · rintro escapes rfl
    obtain ⟨escapes', tail, heq, rfl, hbody⟩ | ⟨⟨⟩, _⟩ | ⟨-, hne⟩ := next_cases hnext
    · obtain rfl : escapes = escapes' := TokenClass.string.inj heq
      obtain ⟨body, rfl, horder⟩ := inOrder_stringBody hbody
      have hquote : ∀ p : Position, (p.advance '"').byte = p.byte + 1 := fun _ => rfl
      have hsplit : '"' :: (body ++ '"' :: rest) = ('"' :: body ++ ['"']) ++ rest := by simp
      refine ⟨((at_.advance '"').advanceAll body).byte, ?_, hquote at_ ▸ horder⟩
      rw [hsplit, List.length_append, Nat.add_sub_cancel, List.take_left,
        Position.advanceAll_append]
      exact (hquote _).symm
    · exact absurd rfl (hne escapes)

theorem placed_finish {lo : Nat} {at_ : Position} {newline : Option Span} (hlo : lo ≤ at_.byte)
    (hnewline : ∀ run, newline = some run → Span.InOrder lo [run] at_.byte) :
    Token.Placed lo [⟨.finish, "", ⟨at_, at_⟩, newline⟩] :=
  ⟨hlo, Nat.le_refl _, by simp, by simp, hnewline, trivial⟩

theorem newline_of_le {lo : Nat} {p q : Position} {newline : Option Span}
    (h : ∀ run, newline = some run → Span.InOrder lo [run] p.byte) (hpq : p.byte ≤ q.byte) :
    ∀ run, newline = some run → Span.InOrder lo [run] q.byte := fun run hrun =>
  ⟨(h run hrun).1, (h run hrun).2.1, Nat.le_trans (h run hrun).2.2 hpq⟩

/-- The tokens of a text stand in its order. -/
theorem placed_go {fuel lo : Nat} {at_ : Position} {newline : Option Span} {cs : List Char}
    (hlo : lo ≤ at_.byte) (hnewline : ∀ run, newline = some run → Span.InOrder lo [run] at_.byte) :
    Token.Placed lo (go fuel at_ newline cs).tokens := by
  induction fuel generalizing lo at_ newline cs with
  | zero => exact placed_finish hlo hnewline
  | succ fuel ih =>
    cases cs with
    | nil => exact placed_finish hlo hnewline
    | cons c cs =>
      rw [go]
      split
      · refine ih (Nat.le_trans hlo (Position.byte_le_advanceAll ..)) fun run hrun => ?_
        obtain hrun | ⟨-, hrun⟩ := Option.or_eq_some_iff.1 hrun
        · exact newline_of_le hnewline (Position.byte_le_advanceAll ..) run hrun
        · cases hrun
          exact ⟨hlo, Position.byte_le_advanceAll .., Nat.le_refl _⟩
      · split
        · have hadvance := Nat.le_of_lt (at_.byte_lt_advance c)
          exact ih (Nat.le_trans hlo hadvance) (newline_of_le hnewline hadvance)
        · dsimp only
          split
          next rest _ =>
            have hadvance := at_.byte_le_advanceAll ((c :: cs).take (cs.length + 1 - rest.length))
            exact ih (Nat.le_trans hlo hadvance) (newline_of_le hnewline hadvance)
          next =>
            obtain ⟨cls, rest, hnext⟩ : ∃ cls rest, next at_ (c :: cs) = (cls, rest) := ⟨_, _, rfl⟩
            rw [hnext]
            exact placed_cons hlo hnewline hnext (ih (Nat.le_refl _) (by simp))

/-- Comments stop where they start or behind. -/
theorem forward_of_mem_comments {fuel : Nat} {at_ : Position} {newline : Option Span}
    {cs : List Char} :
    ∀ span ∈ (go fuel at_ newline cs).comments, span.start.byte ≤ span.stop.byte := by
  induction fuel generalizing at_ newline cs with
  | zero => simp [go]
  | succ fuel ih =>
    cases cs with
    | nil => simp [go]
    | cons c cs =>
      rw [go]
      split
      · exact ih
      · split
        · exact ih
        · dsimp only
          split
          · exact List.forall_mem_cons.2 ⟨Position.byte_le_advanceAll .., ih⟩
          · exact ih

theorem placed_ofText (text : String) : Token.Placed 0 (ofText text).tokens := by
  unfold ofText
  split
  · exact placed_go (Nat.zero_le _) (by simp)
  · split <;> exact placed_go (Nat.zero_le _) (by simp)

theorem forward_of_mem_comments_ofText {text : String} :
    ∀ span ∈ (ofText text).comments, span.start.byte ≤ span.stop.byte := by
  unfold ofText
  split
  · exact forward_of_mem_comments
  · split <;> exact forward_of_mem_comments

end Scan

end Handoff.Syntax

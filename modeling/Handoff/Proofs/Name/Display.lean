import Handoff.Name.Qualified
import Handoff.Proofs.Text.Pieces
import Mathlib.Data.List.TakeWhile

/-!
# Qualified names as texts

A qualified name is written as package, receiver and name with dots between them. What is read from
a text is written again as that text, without the blanks around it and the brackets and stars of the
receiver. Reading the written form gives the name back, with one exception: a receiver such as `v2`
looks like the version of a package element and becomes part of it, unless the element has a version
already.

## Main definitions

* `QualifiedName.Spells`: the texts that stand for a name.
* `QualifiedName.decorated`: a name written with brackets and stars around its receiver.
* `QualifiedName.hasVersionReceiver`: the receiver looks like a version that the package does not
  have yet.

## Main statements

* `QualifiedName.spells_of_ofChars`: what is read is spelled out by its text.
* `QualifiedName.parse_display`: what the written form of a name is, and how it is read.
-/

namespace Handoff

open Text

namespace Text

variable {separator c : Char} {cs before after : List Char}

/-! ### The last separator -/

theorem splitLast_of_not_mem (h : separator ∉ cs) : splitLast separator cs = none := by
  induction cs with
  | nil => rfl
  | cons c cs ih =>
    rw [List.mem_cons, not_or] at h
    rw [splitLast, ih h.2]
    exact if_neg (Ne.symm h.1)

theorem splitLast_append (h : separator ∉ after) :
    splitLast separator (before ++ separator :: after) = some (before, after) := by
  induction before with
  | nil => rw [List.nil_append, splitLast, splitLast_of_not_mem h, if_pos rfl]
  | cons c before ih => rw [List.cons_append, splitLast, ih]

/-- A character of a text has a last place in it. -/
theorem exists_last_of_mem (h : c ∈ cs) : ∃ before after, cs = before ++ c ::
    after ∧ c ∉ after := by
  obtain ⟨after, before, heq, hafter⟩ := List.eq_append_cons_of_mem (List.mem_reverse.2 h)
  refine ⟨before.reverse, after.reverse, ?_, by simpa using hafter⟩
  rw [← List.reverse_reverse cs, heq]
  simp

/-! ### Texts without blanks at their ends -/

def CodePoints.points (set : CodePoints) : List Nat :=
  set.flatMap fun (low, high) => List.range' low (high + 1 - low)

theorem CodePoints.mem_points {set : CodePoints} (h : set.has c = true) : c.toNat ∈ set.points := by
  obtain ⟨⟨low, high⟩, hmem, hin⟩ := List.any_eq_true.1 h
  refine List.mem_flatMap.2 ⟨(low, high), hmem, List.mem_range'_1.2 ?_⟩
  simp only [Bool.and_eq_true, decide_eq_true_eq] at hin
  omega

theorem not_isAlphanumeric_of_isBlank (h : isBlank c = true) : isAlphanumeric c = false := by
  have hall : ∀ n ∈ whiteSpace.points, isAlphanumeric (Char.ofNat n) = false := by decide +kernel
  simpa using hall c.toNat (CodePoints.mem_points h)

theorem trim_trim (cs : List Char) : trim (trim cs) = trim cs :=
  blind_trim.trim_eq cs

theorem trim_eq_self (hhead : ∀ c ∈ cs.head?, isBlank c = false)
    (hlast : ∀ c ∈ cs.getLast?, isBlank c = false) : trim cs = cs := by
  have hleft : trimLeft cs = cs := by
    cases cs with
    | nil => rfl
    | cons c cs => rw [trimLeft_cons, if_neg (by simp [hhead c rfl])]
  rw [trim, hleft]
  cases cs using List.reverseRecOn with
  | nil => rfl
  | append_singleton cs c => rw [trimRight_concat, if_neg (by simp [hlast c (by simp)])]

theorem trimRight_isPrefix (cs : List Char) : trimRight cs <+: cs := by
  simpa [trimRight] using List.reverse_prefix.2 (List.dropWhile_suffix isBlank (l := cs.reverse))

theorem not_isBlank_head_trim (h : c ∈ (trim cs).head?) : isBlank c = false := by
  obtain ⟨rest, hrest⟩ := trimRight_isPrefix (trimLeft cs)
  have hhead : (trimLeft cs).head? = some c := by
    rw [← hrest, List.head?_append, show (trimRight (trimLeft cs)).head? = some c from h]
    rfl
  have hnot := List.head?_dropWhile_not isBlank cs
  rw [show cs.dropWhile isBlank = trimLeft cs from rfl, hhead] at hnot
  simpa using hnot

end Text

namespace QualifiedName

variable {c : Char} {cs path element raw receiver name : List Char} {text : String}
  {q : QualifiedName}

/-! ### Identifiers -/

theorem isIdentifier_iff : isIdentifier cs = true ↔ ∃ c rest, cs = c :: rest ∧
    (isAlphabetic c || c == '_') = true ∧ ∀ d ∈ rest, (isAlphanumeric d || d == '_') = true := by
  cases cs <;> simp [isIdentifier]

theorem ne_nil_of_isIdentifier (h : isIdentifier cs = true) : cs ≠ [] := by
  rintro rfl
  cases h

theorem of_mem_isIdentifier (h : isIdentifier cs = true) (hc : c ∈ cs) :
    (isAlphanumeric c || c == '_') = true := by
  obtain ⟨first, rest, rfl, hfirst, hrest⟩ := isIdentifier_iff.1 h
  obtain rfl | hc := List.mem_cons.1 hc
  · rw [isAlphanumeric, Bool.or_right_comm, hfirst, Bool.true_or]
  · exact hrest c hc

theorem not_mem_of_isIdentifier (h : isIdentifier cs = true)
    (hc : (isAlphanumeric c || c == '_') = false) : c ∉ cs := by
  intro hmem
  rw [of_mem_isIdentifier h hmem] at hc
  cases hc

theorem not_isBlank_of_isIdentifier (h : isIdentifier cs = true) (hc : c ∈ cs) :
    isBlank c = false := by
  by_contra hblank
  rw [Bool.not_eq_false] at hblank
  have halnum := of_mem_isIdentifier h hc
  rw [not_isAlphanumeric_of_isBlank hblank, Bool.false_or, beq_iff_eq] at halnum
  rw [halnum] at hblank
  exact absurd hblank (by decide)

/-- An identifier has no decoration. -/
theorem trimReceiver_of_isIdentifier (h : isIdentifier cs = true) : trimReceiver cs = cs := by
  have hkeep : ∀ {d : Char}, (isAlphanumeric d || d == '_') = false →
      ∀ xs ⊆ cs, xs.dropWhile (· == d) = xs := by
    intro d hd xs hsub
    cases xs with
    | nil => rfl
    | cons x xs =>
      refine List.dropWhile_cons_of_neg ?_
      rw [beq_iff_eq]
      rintro rfl
      exact not_mem_of_isIdentifier h hd (hsub List.mem_cons_self)
  unfold trimReceiver
  rw [hkeep (by decide) cs (List.Subset.refl _), hkeep (by decide) cs (List.Subset.refl _),
    hkeep (by decide) cs.reverse (fun x hx => List.mem_reverse.1 hx), List.reverse_reverse]

/-- Dropping a character from the front takes off a number of copies of it. -/
theorem exists_replicate_dropWhile (c : Char) (cs : List Char) :
    ∃ n, cs = List.replicate n c ++ cs.dropWhile (· == c) := by
  refine ⟨(cs.takeWhile (· == c)).length, ?_⟩
  have hcopies : cs.takeWhile (· == c) = List.replicate (cs.takeWhile (· == c)).length c :=
    List.eq_replicate_of_mem fun d hd => by simpa using List.mem_takeWhile_imp hd
  exact hcopies ▸ List.takeWhile_append_dropWhile.symm

/-- A receiver is its type with brackets and stars around it. -/
theorem exists_decoration (raw : List Char) : ∃ opening stars closing : Nat,
    raw = List.replicate opening '(' ++ List.replicate stars '*' ++ trimReceiver raw ++
      List.replicate closing ')' := by
  obtain ⟨opening, hopening⟩ := exists_replicate_dropWhile '(' raw
  obtain ⟨stars, hstars⟩ := exists_replicate_dropWhile '*' (raw.dropWhile (· == '('))
  obtain ⟨closing, hclosing⟩ := exists_replicate_dropWhile ')'
    ((raw.dropWhile (· == '(')).dropWhile (· == '*')).reverse
  refine ⟨opening, stars, closing, ?_⟩
  rw [List.reverse_eq_iff, List.reverse_append, List.reverse_replicate] at hclosing
  rw [hclosing] at hstars
  rw [hstars] at hopening
  simpa [trimReceiver] using hopening

/-! ### Package elements -/

/-- What may stand before the last element of a path. -/
def IsFolder (path : List Char) : Prop :=
  path = [] ∨ ∃ folder, path = folder ++ ['/']

/-- The last element of a path as it is read: dots are in it only if it ends in a version. -/
structure IsElement (element : List Char) : Prop where
  slash : '/' ∉ element
  dot : '.' ∉ element ∨ ∃ stem version, element = stem ++ '.' :: version ∧ '.' ∉ stem ∧
    '.' ∉ version ∧ Package.isMajorVersion version = true

/-- The dotted parts, once a version has been joined with the element before it. -/
def joined : List (List Char) → List (List Char)
  | first :: second :: rest =>
    if !rest.isEmpty && Package.isMajorVersion second then (first ++ '.' :: second) :: rest
    else first :: second :: rest
  | few => few

theorem exists_folder (cs : List Char) : ∃ path last, cs = path ++ last ∧ IsFolder path ∧
    '/' ∉ last := by
  by_cases h : '/' ∈ cs
  · obtain ⟨before, after, rfl, hafter⟩ := exists_last_of_mem h
    exact ⟨before ++ ['/'], after, by simp, .inr ⟨before, rfl⟩, hafter⟩
  · exact ⟨[], cs, rfl, .inl rfl, h⟩

/-- A path is cut before its last element, and the element at its dots. -/
theorem parts_append {last : List Char} (hpath : IsFolder path) (hlast : '/' ∉ last) :
    parts (path ++ last) = (path, joined (pieces '.' last)) := by
  unfold parts
  obtain rfl | ⟨folder, rfl⟩ := hpath
  · rw [List.nil_append, splitLast_of_not_mem hlast]
    dsimp only
    rcases pieces '.' last with _ | ⟨first, _ | ⟨second, rest⟩⟩
    · rfl
    · rfl
    · exact (apply_ite (Prod.mk []) ..).symm
  · rw [List.append_assoc, List.singleton_append, splitLast_append hlast]
    dsimp only
    rcases pieces '.' last with _ | ⟨first, _ | ⟨second, rest⟩⟩
    · rfl
    · rfl
    · exact (apply_ite (Prod.mk (folder ++ ['/'])) ..).symm

theorem isPackagePath_append (cs : List Char) (h : isIdentifier receiver = true) :
    isPackagePath (cs ++ '.' :: receiver) = true := by
  cases hlast : receiver.getLast? with
  | none => exact absurd (List.getLast?_eq_none_iff.1 hlast) (ne_nil_of_isIdentifier h)
  | some c =>
    have hslash : c ≠ '/' := by
      rintro rfl
      exact not_mem_of_isIdentifier h (by decide) (List.mem_of_getLast? hlast)
    simp [isPackagePath, List.getLast?_append, List.getLast?_cons, hlast, hslash]

theorem lastElement_append (hpath : IsFolder path) (helement : '/' ∉ element) :
    Package.lastElement (path ++ element) = element := by
  unfold Package.lastElement
  obtain rfl | ⟨folder, rfl⟩ := hpath
  · rw [List.nil_append, splitLast_of_not_mem helement]
    rfl
  · rw [List.append_assoc, List.singleton_append, splitLast_append helement]
    rfl

/-! ### Reading -/

inductive Spells : List Char → QualifiedName → Prop
  | bare {name : List Char} (hname : isIdentifier name = true) :
      Spells name (bare (String.ofList name))
  | function {path element name : List Char} (hpath : IsFolder path) (helement : IsElement element)
      (hpackage : isPackagePath (path ++ element) = true) (hname : isIdentifier name = true) :
      Spells (path ++ (element ++ '.' :: name))
        (function (String.ofList (path ++ element)) (String.ofList name))
  | method {path element raw name : List Char} (hpath : IsFolder path)
      (helement : IsElement element) (hpackage : isPackagePath (path ++ element) = true)
      (hraw : isIdentifier (trimReceiver raw) = true)
      (hname : isIdentifier name = true) :
      Spells (path ++ (element ++ '.' :: (raw ++ '.' :: name)))
        (method (String.ofList (path ++ element)) (String.ofList (trimReceiver raw))
          (String.ofList name))

/-- The parts of a text without slashes: its pieces, of which the first may be two that were
joined. -/
theorem joined_pieces {last first : List Char} {rest : List (List Char)} (hlast : '/' ∉ last)
    (h : joined (pieces '.' last) = first :: rest) :
    IsElement first ∧ last = ['.'].intercalate (first :: rest) := by
  have hall := intercalate_pieces '.' last
  have hpiece : ∀ piece ∈ pieces '.' last, '.' ∉ piece ∧ '/' ∉ piece := fun piece hp =>
    ⟨(of_mem_pieces hp).1, fun hslash => hlast ((of_mem_pieces hp).2 hslash)⟩
  unfold joined at h
  split at h
  next one two more hpieces =>
    rw [hpieces] at hall hpiece
    have hone := hpiece one List.mem_cons_self
    have htwo := hpiece two (List.mem_cons_of_mem one List.mem_cons_self)
    split at h
    next hversion =>
      obtain ⟨rfl, rfl⟩ := List.cons.inj h
      obtain ⟨-, hversion⟩ := Bool.and_eq_true_iff.1 hversion
      refine ⟨⟨by simp [hone.2, htwo.2], .inr ⟨one, two, rfl, hone.1, htwo.1, hversion⟩⟩, ?_⟩
      rw [← hall]
      cases more <;> simp [List.intercalate]
    next =>
      obtain ⟨rfl, rfl⟩ := List.cons.inj h
      exact ⟨⟨hone.2, .inl hone.1⟩, hall.symm⟩
  next =>
    rw [h] at hall hpiece
    have hfirst := hpiece first List.mem_cons_self
    exact ⟨⟨hfirst.2, .inl hfirst.1⟩, hall.symm⟩

/-- What is read from a text is spelled by it. -/
theorem spells_of_ofChars (h : ofChars cs = some q) : Spells cs q := by
  obtain ⟨path, last, rfl, hpath, hlast⟩ := exists_folder cs
  unfold ofChars at h
  rw [parts_append hpath hlast] at h
  -- one, two or three parts: a bare name, a function, a method
  split at h
  next name heq =>
    obtain ⟨rfl, hjoined⟩ := Prod.mk.inj heq
    obtain ⟨-, rfl⟩ := joined_pieces hlast hjoined
    split at h
    next hname =>
      cases h
      simpa using Spells.bare hname
    next => cases h
  next element name heq =>
    obtain ⟨rfl, hjoined⟩ := Prod.mk.inj heq
    obtain ⟨helement, rfl⟩ := joined_pieces hlast hjoined
    split at h
    next hok =>
      cases h
      obtain ⟨hname, hpackage⟩ := Bool.and_eq_true_iff.1 hok
      simpa [List.intercalate] using Spells.function hpath helement hpackage hname
    next => cases h
  next element raw name heq =>
    obtain ⟨rfl, hjoined⟩ := Prod.mk.inj heq
    obtain ⟨helement, rfl⟩ := joined_pieces hlast hjoined
    split at h
    next hok =>
      cases h
      obtain ⟨hnames, hpackage⟩ := Bool.and_eq_true_iff.1 hok
      obtain ⟨hname, hraw⟩ := Bool.and_eq_true_iff.1 hnames
      simpa [List.intercalate] using Spells.method hpath helement hpackage hraw hname
    next => cases h
  next => cases h

/-- Reading again what stands for a method: the receiver is taken for a version if it looks like one
and there is none yet. -/
theorem ofChars_method (hpath : IsFolder path) (helement : IsElement element)
    (hpackage : isPackagePath (path ++ element) = true) (hreceiver : isIdentifier receiver = true)
    (hname : isIdentifier name = true) :
    ofChars (path ++ (element ++ '.' :: (receiver ++ '.' :: name))) =
      if Package.isMajorVersion receiver && !element.contains '.' then
        some (function (String.ofList (path ++ (element ++ '.' :: receiver))) (String.ofList name))
      else
        some (method (String.ofList (path ++ element)) (String.ofList receiver)
          (String.ofList name)) := by
  have hdot : ∀ {cs}, isIdentifier cs = true → '.' ∉ cs :=
    fun h => not_mem_of_isIdentifier h (by decide)
  have hslash : ∀ {cs}, isIdentifier cs = true → '/' ∉ cs :=
    fun h => not_mem_of_isIdentifier h (by decide)
  have hpieces : pieces '.' (element ++ '.' :: (receiver ++ '.' :: name)) =
      pieces '.' element ++ [receiver, name] := by
    rw [pieces_append, pieces_append, pieces_of_not_mem (hdot hreceiver),
      pieces_of_not_mem (hdot hname)]
    rfl
  have htrim := trimReceiver_of_isIdentifier hreceiver
  have hlast : '/' ∉ element ++ '.' :: (receiver ++ '.' :: name) := by
    simp [helement.slash, hslash hreceiver, hslash hname]
  unfold ofChars
  rw [parts_append hpath hlast, hpieces]
  obtain hnone | ⟨stem, version, rfl, hstem, hversion, hmajor⟩ := helement.dot
  · rw [pieces_of_not_mem hnone]
    by_cases hmajor : Package.isMajorVersion receiver = true
    · have hlonger : isPackagePath (path ++ (element ++ '.' :: receiver)) = true := by
        rw [← List.append_assoc]
        exact isPackagePath_append (path ++ element) hreceiver
      simp [joined, hmajor, hnone, hname, hlonger]
    · simp [joined, hmajor, hname, htrim, hreceiver, hpackage]
  · rw [pieces_append, pieces_of_not_mem hstem, pieces_of_not_mem hversion]
    simp [joined, hmajor, hname, htrim, hreceiver, hpackage]

/-! ### Writing -/

def decorated (q : QualifiedName) (opening stars closing : Nat) : String :=
  dotted q.package (q.receiver.map fun receiver => String.ofList (List.replicate opening '(' ++
    List.replicate stars '*' ++ receiver.toList ++ List.replicate closing ')')) q.name

/-- Whether the receiver looks like a version that the package does not have yet. -/
def hasVersionReceiver (q : QualifiedName) : Bool :=
  q.receiver.any fun receiver => Package.isMajorVersion receiver.toList &&
    q.package.any fun package => !(Package.lastElement package.toList).contains '.'

/-- The name with its receiver as part of the package. -/
def withVersion (q : QualifiedName) : QualifiedName :=
  ⟨some (dotted q.package none (q.receiver.getD "")), none, q.name⟩

theorem toList_dotted (package receiver : Option String) (name : String) :
    (dotted package receiver name).toList =
      ((package.map fun p => p.toList ++ ['.']).getD [] ++
        (receiver.map fun r => r.toList ++ ['.']).getD []) ++
        name.toList := by
  cases package <;> cases receiver <;> simp [dotted]

/-- Written without receiver, a name is the text it was read from. -/
theorem display_of_spells (h : Spells cs q) (hreceiver : q.receiver = none) :
    q.display.toList = cs := by
  cases h with
  | bare => simp [display, toList_dotted, bare]
  | function => simp [display, toList_dotted, function]
  | method => cases hreceiver

theorem decorated_of_spells (h : Spells cs q) :
    ∃ opening stars closing, (q.decorated opening stars closing).toList = cs := by
  cases h with
  | bare => exact ⟨0, 0, 0, by simp [decorated, toList_dotted, bare]⟩
  | function => exact ⟨0, 0, 0, by simp [decorated, toList_dotted, function]⟩
  | @method path element raw name =>
    obtain ⟨opening, stars, closing, hraw⟩ := exists_decoration raw
    refine ⟨opening, stars, closing, ?_⟩
    conv_rhs => rw [hraw]
    simp [decorated, toList_dotted, method]

/-- What is written has no blanks around it. -/
theorem trim_method (hpackage : isPackagePath (path ++ element) = true)
    (hname : isIdentifier name = true)
    (htrim : trim (path ++ (element ++ '.' :: (raw ++ '.' :: name))) =
      path ++ (element ++ '.' :: (raw ++ '.' :: name))) :
    trim (path ++ (element ++ '.' :: (receiver ++ '.' :: name))) =
      path ++ (element ++ '.' :: (receiver ++ '.' :: name)) := by
  obtain ⟨c, rest, hpath⟩ : ∃ c rest, path ++ element = c :: rest := by
    refine List.exists_cons_of_ne_nil fun hnil => ?_
    rw [hnil] at hpackage
    cases hpackage
  refine trim_eq_self (fun d hd => ?_) fun d hd => ?_
  · have hhead : d ∈ (trim (path ++ (element ++ '.' :: (raw ++ '.' :: name)))).head? := by
      rw [htrim, ← List.append_assoc, hpath]
      rwa [← List.append_assoc, hpath] at hd
    exact not_isBlank_head_trim hhead
  · refine not_isBlank_of_isIdentifier hname (List.mem_of_getLast? ?_)
    have hne := ne_nil_of_isIdentifier hname
    simpa [List.getLast?_append, List.getLast?_cons, List.getLast?_eq_some_getLast hne] using hd

theorem isIdentifier_receiver (h : Spells cs q) : ∀ receiver ∈ q.receiver,
    isIdentifier receiver.toList = true := by
  cases h with
  | bare => rintro _ ⟨⟩
  | function => rintro _ ⟨⟩
  | method _ _ _ hraw _ =>
    rintro _ ⟨⟩
    rwa [String.toList_ofList]

theorem receiver_of_hasVersionReceiver (h : q.hasVersionReceiver = true) : q.receiver ≠ none := by
  intro hnone
  rw [hasVersionReceiver, hnone] at h
  cases h

/-- The written form is read as the name itself, or as the name with its receiver in the package. -/
theorem parse_display_of_ofChars (h : ofChars cs = some q) (htrim : trim cs = cs) :
    parse q.display = some (if q.hasVersionReceiver then q.withVersion else q) := by
  have hplain : q.receiver = none → parse q.display = some q := fun hnone => by
    rw [parse, display_of_spells (spells_of_ofChars h) hnone, htrim, h]
  cases spells_of_ofChars h with
  | bare => exact hplain rfl
  | function => exact hplain rfl
  | @method path element raw name hpath helement hpackage hraw hname =>
    have hdisplay : (method (String.ofList (path ++ element)) (String.ofList (trimReceiver raw))
        (String.ofList name)).display.toList =
        path ++ (element ++ '.' :: (trimReceiver raw ++ '.' :: name)) := by
      simp [display, toList_dotted, method]
    rw [parse, hdisplay, trim_method hpackage hname htrim,
      ofChars_method hpath helement hpackage hraw hname]
    have hversion : (method (String.ofList (path ++ element)) (String.ofList (trimReceiver raw))
        (String.ofList name)).hasVersionReceiver =
        (Package.isMajorVersion (trimReceiver raw) && !element.contains '.') := by
      simp [hasVersionReceiver, method, lastElement_append hpath helement.slash]
    rw [hversion]
    split
    · simp [withVersion, method, function, dotted, String.append_assoc]
    · rfl

/-- What is read is written as the trimmed text, but for brackets and stars around the receiver, of
which the receiver itself has none. Reading the written form gives the name again, except just when
the receiver looks like a version that the package does not have yet; then it is read as part of the
package. -/
theorem parse_display (h : parse text = some q) :
    (∃ opening stars closing, trimmed text = q.decorated opening stars closing) ∧
    (∀ receiver ∈ q.receiver, isIdentifier receiver.toList = true) ∧
    (parse q.display = some q ↔ q.hasVersionReceiver = false) ∧
    (q.hasVersionReceiver = true → parse q.display = some q.withVersion) := by
  have hspells := spells_of_ofChars h
  have hread := parse_display_of_ofChars h (trim_trim _)
  obtain ⟨opening, stars, closing, hall⟩ := decorated_of_spells hspells
  refine ⟨⟨opening, stars, closing, String.toList_inj.1 ?_⟩, isIdentifier_receiver hspells, ?_,
    fun hversion => ?_⟩
  · rw [hall, trimmed, String.toList_ofList]
  · cases hversion : q.hasVersionReceiver with
    | false => simpa [hversion] using hread
    | true =>
      rw [hversion, if_pos rfl] at hread
      have hne : q.withVersion ≠ q := fun heq =>
        receiver_of_hasVersionReceiver hversion (congrArg QualifiedName.receiver heq).symm
      simp [hread, hne]
  · rw [hread, hversion, if_pos rfl]

/-- A receiver in brackets is read, but not without them. -/
theorem parse_display_versionReceiver :
    parse " k8s.io/client.(*v1).Do" = some (method "k8s.io/client" "v1" "Do") ∧
      parse "k8s.io/client.v1.Do" = some (function "k8s.io/client.v1" "Do") ∧
      ∃ opening stars closing, trimmed " k8s.io/client.(*v1).Do" =
        decorated (method "k8s.io/client" "v1" "Do") opening stars closing := by
  have hread : parse " k8s.io/client.(*v1).Do" =
      some (method "k8s.io/client" "v1" "Do") := by decide +kernel
  obtain ⟨hwritten, -, -, hversion⟩ := parse_display hread
  have hdisplay : (method "k8s.io/client" "v1" "Do").display =
      "k8s.io/client.v1.Do" := by decide +kernel
  have hwith : (method "k8s.io/client" "v1" "Do").withVersion =
      function "k8s.io/client.v1" "Do" := by
    decide +kernel
  exact ⟨hread, hdisplay ▸ hwith ▸ hversion (by decide +kernel), hwritten⟩

end QualifiedName

end Handoff

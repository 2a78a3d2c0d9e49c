import Handoff.Syntax.Position
import Handoff.Text.Identifier

/-!
# Tokens of Go text

The text falls into words, literals, operators and comments, with blanks between them. A line feed
may end a statement, so a token knows the first run of line feeds between the token before it and
itself. Comments are kept apart: they may stand anywhere and take no part in the grammar.
-/

namespace Handoff.Syntax

inductive TokenClass where
  /-- An identifier or a keyword. -/
  | word
  | int
  | float
  | imaginary
  | rune
  | rawString
  /-- A string between double quotes, with the escapes in it. -/
  | string (escapes : List Span)
  | operator
  /-- A character that starts no token. -/
  | stray
  /-- The end of the text. -/
  | finish
deriving DecidableEq, Repr

structure Token where
  cls : TokenClass
  text : String
  span : Span
  /-- The first run of line feeds before the token. -/
  newline : Option Span
deriving Repr

/-- The words that name nothing. -/
def reserved : List String :=
  ["break", "case", "chan", "const", "continue", "default", "defer", "else", "fallthrough", "for",
   "func", "go", "goto", "if", "import", "interface", "map", "package", "range", "return", "select",
   "struct", "switch", "type", "var"]

namespace Token

/-- A token that stands for the end of any text. -/
def ended : Token := ⟨.finish, "", ⟨.origin, .origin⟩, none⟩

def isName (t : Token) : Bool :=
  t.cls == .word && !reserved.contains t.text

def isWord (t : Token) (text : String) : Bool :=
  t.cls == .word && t.text == text

def isOperator (t : Token) (text : String) : Bool :=
  t.cls == .operator && t.text == text

end Token

/-- What a text consists of: tokens, the last one being the end of the text, and comments. -/
structure Scan where
  tokens : List Token
  comments : List Span

/-- A lexical form: how much of a text it takes, if it matches. The result is what is left. -/
abbrev Form := List Char → Option (List Char)

namespace Form

def char (p : Char → Bool) : Form
  | c :: cs => if p c then some cs else none
  | [] => none

def oneOf (choices : List Char) : Form :=
  char choices.contains

def text : List Char → Form
  | [] => some
  | c :: cs => fun
    | d :: ds => if c = d then text cs ds else none
    | [] => none

def seq (forms : List Form) : Form :=
  forms.foldr (fun form rest cs => (form cs).bind rest) some

def opt (form : Form) : Form :=
  fun cs => some ((form cs).getD cs)

/-- The match that takes the most. -/
def longest (forms : List Form) : Form := fun cs =>
  forms.foldl (fun best form =>
    match best, form cs with
    | none, found => found
    | some rest, none => some rest
    | some rest, some rest' => if rest'.length < rest.length then some rest' else some rest) none

/-- Digits, each but the first with an underscore before it or not. -/
def moreDigits (p : Char → Bool) : Form
  | '_' :: c :: cs => if p c then moreDigits p cs else some ('_' :: c :: cs)
  | c :: cs => if p c then moreDigits p cs else some (c :: cs)
  | [] => some []

def digits (p : Char → Bool) : Form
  | c :: cs => if p c then moreDigits p cs else none
  | [] => none

def isHexDigit (c : Char) : Bool :=
  c.isDigit || ('a' ≤ c && c ≤ 'f') || ('A' ≤ c && c ≤ 'F')

def isOctalDigit (c : Char) : Bool :=
  '0' ≤ c && c ≤ '7'

def isBinaryDigit (c : Char) : Bool :=
  c == '0' || c == '1'

def underscore : Form := opt (oneOf ['_'])

def hexDigits : Form := digits isHexDigit

def decimalDigits : Form := digits Char.isDigit

def int : Form :=
  longest
    [seq [oneOf ['0'], oneOf ['b', 'B'], underscore, digits isBinaryDigit],
     oneOf ['0'],
     seq [char fun c => '1' ≤ c && c ≤ '9', opt (seq [underscore, decimalDigits])],
     seq [oneOf ['0'], opt (oneOf ['o', 'O']), underscore, digits isOctalDigit],
     seq [oneOf ['0'], oneOf ['x', 'X'], underscore, hexDigits]]

def exponent (marks : List Char) : Form :=
  seq [oneOf marks, opt (oneOf ['+', '-']), decimalDigits]

def float : Form :=
  let power := exponent ['e', 'E']
  longest
    [seq [decimalDigits, oneOf ['.'], opt decimalDigits, opt power],
     seq [decimalDigits, power],
     seq [oneOf ['.'], decimalDigits, opt power],
     seq [oneOf ['0'], oneOf ['x', 'X'],
       longest
         [seq [underscore, hexDigits, oneOf ['.'], opt hexDigits],
          seq [underscore, hexDigits],
          seq [oneOf ['.'], hexDigits]],
       exponent ['p', 'P']]]

def imaginary : Form :=
  seq [longest [decimalDigits, int, float], oneOf ['i']]

def repeated (n : Nat) (form : Form) : Form :=
  seq (List.replicate n form)

def hexDigit : Form := char isHexDigit

def rune : Form :=
  let octal := char isOctalDigit
  seq
    [oneOf ['\''],
     longest
       [char fun c => c != '\'' && c != '\\',
        seq [oneOf ['\\'],
          longest
            [seq [oneOf ['x'], repeated 2 hexDigit],
             repeated 3 octal,
             seq [oneOf ['u'], repeated 4 hexDigit],
             seq [oneOf ['U'], repeated 8 hexDigit],
             oneOf ['a', 'b', 'f', 'n', 'r', 't', 'v', '\\', '\'', '"']]]],
     oneOf ['\'']]

def many (p : Char → Bool) : Form :=
  fun cs => some (cs.dropWhile p)

/-- An escape in a string between double quotes. -/
def escape : Form :=
  let digit := char Char.isDigit
  seq
    [oneOf ['\\'],
     longest
       [char fun c => c != 'x' && c != 'u' && c != 'U',
        seq [repeated 2 digit, opt digit],
        seq [oneOf ['x'], repeated 2 hexDigit, many isHexDigit],
        seq [oneOf ['u'], repeated 4 hexDigit],
        seq [oneOf ['U'], repeated 8 hexDigit]]]

def rawString : Form :=
  seq [oneOf ['\x60'], many fun c => c != '\x60', oneOf ['\x60']]

def lineComment : Form :=
  seq [text ['/', '/'], many fun c => c != '\n']

/-- Everything up to the first star and slash. -/
def untilStarSlash : Form
  | '*' :: '/' :: cs => some cs
  | _ :: cs => untilStarSlash cs
  | [] => none

def blockComment : Form :=
  seq [text ['/', '*'], untilStarSlash]

def word : Form :=
  seq [char Text.startsIdentifier, many Text.continuesIdentifier]

/-- Longer operators stand before those they start with. -/
def operators : List String :=
  ["<<=", ">>=", "&^=", "...", "&&", "||", "<-", "++", "--", "==", "!=", "<=", ">=", ":=", "+=",
   "-=", "*=", "/=", "%=", "&=", "|=", "^=", "<<", ">>", "&^", "+", "-", "*", "/", "%", "&", "|",
   "^", "<", ">", "=", "!", "(", ")", "[", "]", "\x7b", "\x7d", ",", ";", ".", ":", "~"]

def operator : Form := fun cs =>
  operators.findSome? fun o => text o.toList cs

end Form

namespace Scan

/-- Blanks between tokens. -/
def isSpace (c : Char) : Bool :=
  c == ' ' || c == '\t' || c == '\r' || c == '\n' || c == '\x0b' || c == '\x0c'

/-- The body of a string after its opening quote: the escapes in it, and what is left after the
closing quote. A line feed or the end of the text before that quote is no string. -/
def stringBody : Nat → Position → List Char → Option (List Span × List Char)
  | 0, _, _ => none
  | fuel + 1, at_, cs =>
    match cs with
    | [] => none
    | '\n' :: _ => none
    | '"' :: rest => some ([], rest)
    | '\\' :: _ =>
      match Form.escape cs with
      | none => none
      | some rest =>
        let stop := at_.advanceAll (cs.take (cs.length - rest.length))
        (stringBody fuel stop rest).map fun (escapes, rest) => (⟨at_, stop⟩ :: escapes, rest)
    | c :: rest => stringBody fuel (at_.advance c) rest

/-- The class of the next token and what is left after it. -/
def next (at_ : Position) (cs : List Char) : TokenClass × List Char :=
  match cs with
  | [] => (.finish, [])
  | c :: rest =>
    if c = '"' then
      match stringBody cs.length (at_.advance c) rest with
      | some (escapes, rest) => (.string escapes, rest)
      | none => (.stray, rest)
    else
      let numbers : List (TokenClass × Form) :=
        [(.imaginary, .imaginary), (.float, .float), (.int, .int)]
      let number := numbers.foldl (fun best (cls, form) =>
        match best, form cs with
        | none, found => found.map (cls, ·)
        | some b, none => some b
        | some b, some rest => if rest.length < b.2.length then some (cls, rest) else some b) none
      let others : List (TokenClass × Form) :=
        [(.word, .word), (.rune, .rune), (.rawString, .rawString), (.operator, .operator)]
      (number.or (others.findSome? fun (cls, form) => (form cs).map (cls, ·))).getD (.stray, rest)

/-- Scans from a position on. `newline` is the run of line feeds seen since the last token. -/
def go : Nat → Position → Option Span → List Char → Scan
  | 0, at_, newline, _ => ⟨[⟨.finish, "", ⟨at_, at_⟩, newline⟩], []⟩
  | _ + 1, at_, newline, [] => ⟨[⟨.finish, "", ⟨at_, at_⟩, newline⟩], []⟩
  | fuel + 1, at_, newline, c :: cs =>
    if c = '\n' then
      let run := (c :: cs).takeWhile (· == '\n')
      let stop := at_.advanceAll run
      go fuel stop (newline.or (some ⟨at_, stop⟩)) (cs.dropWhile (· == '\n'))
    else if isSpace c then go fuel (at_.advance c) newline cs
    else
      let taken (rest : List Char) := (c :: cs).take (cs.length + 1 - rest.length)
      match (Form.lineComment (c :: cs)).or (Form.blockComment (c :: cs)) with
      | some rest =>
        let stop := at_.advanceAll (taken rest)
        let scan := go fuel stop newline rest
        { scan with comments := ⟨at_, stop⟩ :: scan.comments }
      | none =>
        let (cls, rest) := next at_ (c :: cs)
        let stop := at_.advanceAll (taken rest)
        let scan := go fuel stop none rest
        { scan with
          tokens := ⟨cls, String.ofList (taken rest), ⟨at_, stop⟩, newline⟩ :: scan.tokens }

/-- A byte order mark at the start is skipped. -/
def ofText (text : String) : Scan :=
  match text.toList with
  | [] => go 0 .origin none []
  | c :: cs =>
    if c.toNat = 0xFEFF then go cs.length (Position.origin.advance c) none cs
    else go (cs.length + 1) .origin none (c :: cs)

end Scan

end Handoff.Syntax

import Handoff.Text.Split
import Handoff.Toml.Value

/-!
# TOML scalars without quotes

Integers in four bases, floats, booleans, and dates and times. An underscore may stand between two
digits.
-/

namespace Handoff.Toml

open Text

def isHexDigit (c : Char) : Bool :=
  c.isDigit || ('a' ≤ c && c ≤ 'f') || ('A' ≤ c && c ≤ 'F')

/-- The value of a hexadecimal digit. -/
def hexDigit (c : Char) : Nat :=
  if c.isDigit then c.toNat - '0'.toNat
  else if 'a' ≤ c then c.toNat - 'a'.toNat + 10
  else c.toNat - 'A'.toNat + 10

/-- The number that digits write in a base. -/
def ofDigits (base : Nat) (cs : List Char) : Nat :=
  cs.foldl (fun n c => base * n + hexDigit c) 0

/-- The digits of a text with underscores between digits. -/
def digits? (isDigit : Char → Bool) (cs : List Char) : Option (List Char) :=
  let parts := pieces '_' cs
  if parts.all fun part => !part.isEmpty && part.all isDigit then some parts.flatten else none

/-- The digits of a decimal number, which has no needless zero in front. -/
def decimal? (cs : List Char) : Option (List Char) :=
  (digits? Char.isDigit cs).filter fun ds => ds.length == 1 || ds.head? != some '0'

/-- A text without its sign. -/
def splitSign : List Char → Bool × List Char
  | '-' :: cs => (true, cs)
  | '+' :: cs => (false, cs)
  | cs => (false, cs)

def integer? (cs : List Char) : Option Int :=
  match cs with
  | '0' :: 'x' :: ds => (digits? isHexDigit ds).map fun ds => ofDigits 16 ds
  | '0' :: 'o' :: ds => (digits? (fun c => '0' ≤ c && c ≤ '7') ds).map fun ds => ofDigits 8 ds
  | '0' :: 'b' :: ds => (digits? (fun c => c == '0' || c == '1') ds).map fun ds => ofDigits 2 ds
  | _ =>
    let (negative, ds) := splitSign cs
    (decimal? ds).map fun ds => if negative then -(ofDigits 10 ds : Int) else ofDigits 10 ds

/-- The exponent of a float, behind the letter. -/
def isExponent (cs : List Char) : Bool :=
  (digits? Char.isDigit (splitSign cs).2).isSome

/-- What stands before and after the letter of an exponent. -/
def splitExponent (cs : List Char) : List Char × Option (List Char) :=
  match cs.span fun c => c != 'e' && c != 'E' with
  | (mantissa, []) => (mantissa, none)
  | (mantissa, _ :: exponent) => (mantissa, some exponent)

def isFloat (cs : List Char) : Bool :=
  let (_, body) := splitSign cs
  let (mantissa, exponent) := splitExponent body
  body == "inf".toList || body == "nan".toList ||
    (exponent.all isExponent &&
      match splitFirst '.' mantissa with
      | some (whole, fraction) => (decimal? whole).isSome && (digits? Char.isDigit fraction).isSome
      | none => exponent.isSome && (decimal? mantissa).isSome)

/-- A number of exactly `width` digits in a range. -/
def isNumber (width least most : Nat) (cs : List Char) : Bool :=
  cs.length == width && cs.all Char.isDigit && least ≤ ofDigits 10 cs && ofDigits 10 cs ≤ most

def isLeapYear (year : Nat) : Bool :=
  year % 4 == 0 && (year % 100 != 0 || year % 400 == 0)

def daysOfMonth (year month : Nat) : Nat :=
  if month = 2 then (if isLeapYear year then 29 else 28)
  else if [4, 6, 9, 11].contains month then 30
  else 31

def isDate (cs : List Char) : Bool :=
  match pieces '-' cs with
  | [year, month, day] =>
    isNumber 4 0 9999 year && isNumber 2 1 12 month &&
      isNumber 2 1 (daysOfMonth (ofDigits 10 year) (ofDigits 10 month)) day
  | _ => false

/-- Seconds, with or without a fraction. -/
def isSeconds (cs : List Char) : Bool :=
  match splitFirst '.' cs with
  | some (whole, fraction) =>
    isNumber 2 0 60 whole && !fraction.isEmpty && fraction.all Char.isDigit
  | none => isNumber 2 0 60 cs

def isTime (cs : List Char) : Bool :=
  match pieces ':' cs with
  | [hour, minute] => isNumber 2 0 23 hour && isNumber 2 0 59 minute
  | [hour, minute, second] => isNumber 2 0 23 hour && isNumber 2 0 59 minute && isSeconds second
  | _ => false

/-- The distance to universal time, behind its sign. -/
def isOffset (cs : List Char) : Bool :=
  match pieces ':' cs with
  | [hour, minute] => isNumber 2 0 23 hour && isNumber 2 0 59 minute
  | _ => false

/-- A time with or without an offset. -/
def isOffsetTime (cs : List Char) : Bool :=
  match cs.span fun c => c != 'Z' && c != 'z' && c != '+' && c != '-' with
  | (time, []) => isTime time
  | (time, sign :: offset) =>
    isTime time && (if sign == 'Z' || sign == 'z' then offset.isEmpty else isOffset offset)

def isMoment (cs : List Char) : Bool :=
  isTime cs || isDate cs ||
    (isDate (cs.take 10) &&
      match cs.drop 10 with
      | separator :: time =>
        (separator == 'T' || separator == 't' || separator == ' ') && isOffsetTime time
      | [] => false)

/-- The value of a word without quotes. -/
def scalar? (cs : List Char) : Option Value :=
  if cs = "true".toList then some (.boolean true)
  else if cs = "false".toList then some (.boolean false)
  else
    match integer? cs with
    | some n => some (.integer n)
    | none =>
      if isFloat cs then some (.float (String.ofList cs))
      else if isMoment cs then some (.moment (String.ofList cs))
      else none

end Handoff.Toml

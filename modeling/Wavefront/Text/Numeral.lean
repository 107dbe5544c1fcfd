/-
# Numerals

Unsigned decimal numerals of bounded size as settings give them, and the
fixed-width hexadecimal form of a 64-bit word. A numeral is one or more ASCII
digits after an optional plus sign; any number of leading zeros is allowed, and
a value past the bound makes it no numeral at all.
-/

import Wavefront.Text.Quoted

namespace Wavefront.Text

/-- The number of values of a 64-bit word. -/
def wordLimit : Nat := 0x10000000000000000

/-- The number of values of a signed 64-bit word that are not negative. -/
def signedLimit : Nat := 0x8000000000000000

/-- The number that a list of ASCII digits denotes, after what was read before them. -/
def readDigits : (soFar : Nat) → List Char → Option Nat
  | soFar, [] => some soFar
  | soFar, c :: rest =>
      if c.isDigit then readDigits (10 * soFar + (c.toNat - 48)) rest else none

/-- The value of a nonempty run of ASCII digits. -/
def digits? : List Char → Option Nat
  | [] => none
  | cs => readDigits 0 cs

/-- The value below `limit` that an unsigned numeral denotes. -/
def unsigned? (limit : Nat) (cs : List Char) : Option Nat :=
  let body := match cs with
    | '+' :: rest => rest
    | _ => cs
  (digits? body).filter (· < limit)

/-- The value that a signed numeral denotes, if it lies in the range of 64-bit integers. -/
def signed? (cs : List Char) : Option Int :=
  match cs with
  | '-' :: rest => ((digits? rest).filter (· ≤ signedLimit)).map fun n => -(n : Int)
  | '+' :: rest => ((digits? rest).filter (· < signedLimit)).map Int.ofNat
  | _ => ((digits? cs).filter (· < signedLimit)).map Int.ofNat

/-- Text without the white space at its two ends. -/
def trim (cs : List Char) : List Char :=
  ((cs.dropWhile isBlank).reverse.dropWhile isBlank).reverse

/-- A word as hexadecimal digits padded with zeros to a fixed width. -/
def hexPadded (width n : Nat) : String :=
  String.ofList ((hexDigits n).leftpad width '0')

end Wavefront.Text

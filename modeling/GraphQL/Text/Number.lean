import GraphQL.Text.Double

/-! Number literals. A whole number has no leading zero; a double adds a fraction, an
exponent or both. An exponent starts with a sign or one of the digits 1 to 8, and a sign
needs a digit after it. Whole numbers outside of 64 signed bits denote nothing. -/
namespace GraphQL

inductive Number where
  | whole (value : Int)
  | double (value : Double)

namespace Number

def endsNumber (c : Char) : Bool :=
  " \n\r\t,#!$:=@|&()[]\x7b\x7d".toList.contains c

def isNatural : List Char → Bool
  | [] => false
  | ['0'] => true
  | first :: rest => first != '0' && first.isDigit && rest.all Char.isDigit

def isWhole : List Char → Bool
  | '-' :: digits => isNatural digits
  | digits => isNatural digits

def isFraction (digits : List Char) : Bool := !digits.isEmpty && digits.all Char.isDigit

def isExponent : List Char → Bool
  | [] => false
  | first :: rest =>
      if first == '-' || first == '+' then isFraction rest
      else '1' ≤ first && first ≤ '8' && rest.all Char.isDigit

def decimal (digits : List Char) : Nat :=
  digits.foldl (fun value c => 10 * value + (c.toNat - '0'.toNat)) 0

def signed : List Char → Int
  | '-' :: digits => -(decimal digits : Int)
  | '+' :: digits => decimal digits
  | digits => decimal digits

/-- Splits at the last character that satisfies the test and drops it. -/
def splitLast (test : Char → Bool) : List Char → Option (List Char × List Char)
  | [] => none
  | c :: rest =>
      match splitLast test rest with
      | some (before, after) => some (c :: before, after)
      | none => if test c then some ([], rest) else none

def minWhole : Int := -9223372036854775808

def maxWhole : Int := 9223372036854775807

def ofParts (whole fraction exponent : List Char) : Double :=
  let digits := (whole.filter Char.isDigit ++ fraction).dropWhile (· == '0')
  let size := Double.ofDecimal (decimal digits) digits.length (signed exponent - fraction.length)
  if whole.head? == some '-' then size.negate else size

def ofUnscaled? (mantissa exponent : List Char) : Option Number :=
  match splitLast (· == '.') mantissa with
  | some (digits, fraction) =>
      if isWhole digits && isFraction fraction then
        some (.double (ofParts digits fraction exponent))
      else none
  | none => if isWhole mantissa then some (.double (ofParts mantissa [] exponent)) else none

def ofWord? (word : List Char) : Option Number :=
  match splitLast (fun c => c == 'e' || c == 'E') word with
  | some (mantissa, exponent) => if isExponent exponent then ofUnscaled? mantissa exponent else none
  | none =>
      if word.contains '.' then ofUnscaled? word []
      else if isWhole word && minWhole ≤ signed word && signed word ≤ maxWhole then
        some (.whole (signed word))
      else none

end Number
end GraphQL

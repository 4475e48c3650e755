/-!
Query values in the form encoding of URLs, and their decoder. Letters, digits and the characters
`*-._` stand for themselves, a blank is written as a plus, and any other octet as a percent sign
with two hexadecimal digits. The decoder takes back what the encoder wrote.
-/
namespace Harvest.Text

def formKeeps (b : UInt8) : Bool :=
  (48 ≤ b && b ≤ 57) || (65 ≤ b && b ≤ 90) || (97 ≤ b && b ≤ 122) ||
    b == 42 || b == 45 || b == 46 || b == 95

def hexDigit (n : Nat) : Char := if n < 10 then Char.ofNat (48 + n) else Char.ofNat (55 + n)

def formOctet (b : UInt8) : List Char :=
  if formKeeps b then [Char.ofNat b.toNat]
  else if b == 32 then ['+']
  else ['%', hexDigit (b.toNat / 16), hexDigit (b.toNat % 16)]

def formChars (octets : List UInt8) : List Char := octets.flatMap formOctet

def formEncode (s : String) : String := String.ofList (formChars s.toByteArray.data.toList)

def hexValue (c : Char) : Option Nat :=
  if '0' ≤ c && c ≤ '9' then some (c.toNat - 48)
  else if 'A' ≤ c && c ≤ 'F' then some (c.toNat - 55)
  else if 'a' ≤ c && c ≤ 'f' then some (c.toNat - 87)
  else none

/-- The octets a form value stands for; a percent sign without two digits stands for itself. -/
def formDecode : List Char → List UInt8
  | [] => []
  | '%' :: a :: b :: rest =>
    match hexValue a, hexValue b with
    | some x, some y => UInt8.ofNat (16 * x + y) :: formDecode rest
    | _, _ => 37 :: formDecode (a :: b :: rest)
  | c :: rest =>
    if c == '+' then 32 :: formDecode rest
    else (String.ofList [c]).toByteArray.data.toList ++ formDecode rest

/-- The names and values of a query, each decoded: pairs stand between ampersands, and a name ends
at the first equals sign. -/
def formPairs (query : List Char) : List (List UInt8 × List UInt8) :=
  (query.splitOn '&').filterMap fun pair =>
    if pair.isEmpty then none
    else
      let name := pair.takeWhile (· != '=')
      some (formDecode name, formDecode ((pair.dropWhile (· != '=')).drop 1))

end Harvest.Text

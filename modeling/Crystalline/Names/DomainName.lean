import Crystalline.Text.Basic

/-!
# What may name a domain

A domain name is checked exactly as it is given.  What counts as a letter or a
digit is left to the Unicode tables, which the check takes as a parameter.
-/

namespace Crystalline.Names

open Text

/-- The longest domain name, in characters. -/
def maxDomainNameChars : Nat := 64

def domainNameRule : Text :=
  "use letters, digits, hyphens, underscores and dots ".toList ++
    "(no leading or trailing dot), 64 characters or fewer, and not a Windows device name ".toList ++
    "(CON, PRN, AUX, NUL, COM1-COM9, LPT1-LPT9)".toList

/-- `char::to_ascii_uppercase`. -/
def toAsciiUppercase (char : Char) : Char :=
  if isAsciiLowercase char then Char.ofNat (char.toNat - 32) else char

/-- Whether the segment before the first dot is a name Windows keeps for a
device.  Only the whole segment counts, in any ASCII case. -/
def isWindowsDeviceName (stem : Text) : Bool :=
  let head := (stem.take 3).map toAsciiUppercase
  match stem.drop 3 with
  | [] =>
      head ∈ ["CON".toList, "PRN".toList, "AUX".toList, "NUL".toList]
  | [digit] =>
      head ∈ ["COM".toList, "LPT".toList] &&
        (isAsciiDigit digit && digit ≠ '0' || digit ∈ ['¹', '²', '³'])
  | _ => false

/-- Whether the name may name a new domain; the error is the sentence every
surface shows. -/
def validateDomainName (isAlphanumeric : Char → Bool) (name : Text) : Except Text Unit :=
  if trim name = [] then .error "the domain name is empty".toList
  else
    let stem := (splitMatches (· == '.') name).head?.getD name
    let allowed := name.length ≤ maxDomainNameChars &&
      !startsWith name ['.'] &&
      !endsWith name ['.'] &&
      name.all (fun char => isAlphanumeric char || char ∈ ['-', '_', '.']) &&
      !isWindowsDeviceName stem
    if allowed then .ok ()
    else .error (['\''] ++ name ++ "' cannot name a domain: ".toList ++ domainNameRule)

/-- `validate_domain_name(name).is_ok()`. -/
def isDomainName (isAlphanumeric : Char → Bool) (name : Text) : Bool :=
  (validateDomainName isAlphanumeric name).isOk

example : isDomainName isAsciiAlphanumeric "COM1.notes".toList = false ∧
    isDomainName isAsciiAlphanumeric "COM10.notes".toList = true := by decide

end Crystalline.Names

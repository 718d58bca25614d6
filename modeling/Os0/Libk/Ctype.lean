import Mathlib.Data.Nat.Notation

/-! Classes of characters (`libk/ctype.c`). -/
namespace Os0

/-- A character of the source. -/
def ch (c : Char) : UInt8 := c.val.toUInt8

def isdigit (c : UInt8) : Bool := ch '0' ≤ c && c ≤ ch '9'
def isblank (c : UInt8) : Bool := c == ch ' ' || c == ch '\t'
/-- `'\v'` is 11 and `'\f'` is 12. -/
def isspace (c : UInt8) : Bool := isblank c || c == ch '\n' || c == 11 || c == 12 || c == ch '\r'
/-- `char` is signed, so bytes from 128 on are negative and no graphic characters. -/
def isgraph (c : UInt8) : Bool := ch ' ' < c && c ≤ ch '~'
def iscntrl (c : UInt8) : Bool := c < ch ' ' || c == 127

end Os0

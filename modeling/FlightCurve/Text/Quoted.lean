import FlightCurve.Text.Hexadecimal
import FlightCurve.Text.Printable

/-!
Quoted texts, as diagnostics show pieces of a source. The quote is `'`, or `"` where the text holds
`'` and no `"`; the quote, the backslash and every unprintable character are escaped.
-/

namespace FlightCurve.Text

/-- An unprintable character by its code point, in the shortest of three widths. -/
def escapeCode (c : Char) : List Char :=
  if c.toNat < 0x100 then '\\' :: 'x' :: hexDigits 2 c.toNat
  else if c.toNat < 0x10000 then '\\' :: 'u' :: hexDigits 4 c.toNat
  else '\\' :: 'U' :: hexDigits 8 c.toNat

def escape (quote c : Char) : List Char :=
  if c = quote ∨ c = '\\' then ['\\', c]
  else if c = '\n' then ['\\', 'n']
  else if c = '\r' then ['\\', 'r']
  else if c = '\t' then ['\\', 't']
  else if isPrintable c then [c]
  else escapeCode c

def quoteFor (cs : List Char) : Char :=
  if cs.contains '\'' && !cs.contains '"' then '"' else '\''

def quotedChars (cs : List Char) : List Char :=
  quoteFor cs :: (cs.flatMap (escape (quoteFor cs)) ++ [quoteFor cs])

def quoted (text : String) : String :=
  String.ofList (quotedChars text.toList)

end FlightCurve.Text

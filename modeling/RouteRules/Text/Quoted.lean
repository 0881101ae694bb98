import RouteRules.Text.Invisible

/-!
# Quoted text

How a text is written inside a longer text. It stands between single quotes, or between double
quotes if it holds a single quote and no double one. The quote in use, the backslash and invisible
characters are escaped.
-/

namespace RouteRules.Quoted

/-- The quote that a text is written with. -/
def quoteFor (s : String) : Char :=
  if s.toList.contains '\'' && !s.toList.contains '"' then '"' else '\''

/-- The lower-case hexadecimal digits of `n`, at least `width` of them. -/
def hex (width n : Nat) : String :=
  let digits := Nat.toDigits 16 n
  String.ofList (List.replicate (width - digits.length) '0' ++ digits)

/-- A character as it stands between two quotes `quote`. -/
def escape (quote c : Char) : String :=
  -- Only the quote in use is escaped, the other kind stands for itself.
  if c = quote ∨ c = '\\' then String.ofList ['\\', c]
  else if c = '\n' then "\\n"
  else if c = '\t' then "\\t"
  else if c = '\r' then "\\r"
  else if isInvisible c then
    if c.toNat < 0x100 then "\\x" ++ hex 2 c.toNat
    else if c.toNat < 0x10000 then "\\u" ++ hex 4 c.toNat
    else "\\U" ++ hex 8 c.toNat
  else String.singleton c

/-- The text between its quotes. -/
def encode (s : String) : String :=
  let quote := quoteFor s
  String.singleton quote ++ String.join (s.toList.map (escape quote)) ++ String.singleton quote

end RouteRules.Quoted

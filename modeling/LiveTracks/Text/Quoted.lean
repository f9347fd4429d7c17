import LiveTracks.Text.Hidden

/-!
# Quoted text

A text between double quotes, on one line and with every character in sight: the quote and the
backslash are escaped, tab, line feed, carriage return and NUL have a letter or digit of their own, and
any other character that would not be seen is given by its code point.
-/

namespace LiveTracks.Text

def codePoint (c : Char) : List Char :=
  '\\' :: 'u' :: '\x7b' :: Nat.toDigits 16 c.toNat ++ ['\x7d']

def escape (c : Char) : List Char :=
  if c = '\x22' then ['\\', '\x22']
  else if c = '\\' then ['\\', '\\']
  else if c = '\t' then ['\\', 't']
  else if c = '\n' then ['\\', 'n']
  else if c = '\r' then ['\\', 'r']
  else if c = '\x00' then ['\\', '0']
  else if isHidden c then codePoint c
  else [c]

def quoted (s : String) : String :=
  String.ofList ('\x22' :: s.toList.flatMap escape ++ ['\x22'])

end LiveTracks.Text

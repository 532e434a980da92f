namespace VnScript.Text

/-- A character within a literal that `quote` delimits. -/
def escapeChar (quote c : Char) : List Char :=
  if c = '\\' then ['\\', '\\']
  else if c = '\n' then ['\\', 'n']
  else if c = '\r' then ['\\', 'r']
  else if c = '\t' then ['\\', 't']
  else if c = '\x00' then ['\\', '0']
  else if c = quote then ['\\', c]
  else [c]

def escape (quote : Char) (cs : List Char) : List Char := cs.flatMap (escapeChar quote)

def quoted (s : String) : String := String.ofList ('"' :: escape '"' s.toList ++ ['"'])

def quotedChar (c : Char) : String := String.ofList ('\x27' :: escapeChar '\x27' c ++ ['\x27'])

end VnScript.Text

import SprintLedger.Text.Printable

set_option autoImplicit false

namespace SprintLedger.Text

def escapeCodePoint (c : Char) : List Char :=
  ['\\', 'u', '{'] ++ Nat.toDigits 16 c.toNat ++ ['}']

def quoteChar (c : Char) : List Char :=
  if c = '\x00' then ['\\', '0']
  else if c = '\t' then ['\\', 't']
  else if c = '\n' then ['\\', 'n']
  else if c = '\r' then ['\\', 'r']
  else if c = '"' then ['\\', '"']
  else if c = '\\' then ['\\', '\\']
  else if isPrintable c then [c]
  else escapeCodePoint c

def quote (cs : List Char) : List Char := '"' :: cs.flatMap quoteChar ++ ['"']

end SprintLedger.Text

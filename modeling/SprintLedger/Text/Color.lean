set_option autoImplicit false

namespace SprintLedger.Text

def green : String := "\x1b[0;32m"

def yellow : String := "\x1b[0;33m"

def plain : String := "\x1b[0m"

def paint (color text : String) (enabled : Bool) : String :=
  if enabled then color ++ text ++ plain else text

end SprintLedger.Text

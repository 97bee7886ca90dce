import SprintLedger.Path

set_option autoImplicit false

namespace SprintLedger

inductive Content where
  -- Nothing: also behind a link that leads nowhere.
  | missing
  -- Something, but no file of UTF-8 text.
  | unreadable
  | text (content : String)
deriving DecidableEq

def Content.ofBytes (bytes : ByteArray) : Content :=
  match String.fromUTF8? bytes with
  | some content => .text content
  | none => .unreadable

def Content.isMissing : Content → Bool
  | .missing => true
  | _ => false

structure DirectoryEntry where
  name : ByteArray
  -- Whether the path of the directory, with the name behind it, leads to a directory.
  isDirectory : Bool

class Storage (m : Type → Type) where
  look : Path → m Content
  save : Path → String → m Bool
  -- The entries of a directory in any order, or nothing if it cannot be listed.
  list? : Path → m (Option (List DirectoryEntry))

end SprintLedger

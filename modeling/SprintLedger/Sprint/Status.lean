set_option autoImplicit false

namespace SprintLedger

-- The status of a sprint. A text this program does not write is kept as it is.
inductive Status where
  | pending
  | inProgress
  | completed
  | other (text : String)
deriving DecidableEq

namespace Status

def text : Status → String
  | .pending => "pending"
  | .inProgress => "in_progress"
  | .completed => "completed"
  | .other text => text

def ofText (text : String) : Status :=
  if text = "pending" then .pending
  else if text = "in_progress" then .inProgress
  else if text = "completed" then .completed
  else .other text

@[simp] theorem text_of_text (text : String) : (ofText text).text = text := by
  unfold ofText
  split
  · simp_all [Status.text]
  · split
    · simp_all [Status.text]
    · split <;> simp_all [Status.text]

end Status

end SprintLedger

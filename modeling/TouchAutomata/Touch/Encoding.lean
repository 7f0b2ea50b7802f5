import TouchAutomata.Touch.Basic

/-!
# Reading a touch

A touch is written as its core followed by its attributes, each after a colon, as in
`D5:red:big`. Every text can be read: what is no proper core degrades to the action `other`
without a number. One colon at the end begins no attribute.
-/

set_option autoImplicit false

namespace TouchAutomata.Touch

/-- The text before the first colon, and the pieces after each colon. -/
def segments : List Char → List Char × List (List Char)
  | [] => ([], [])
  | c :: cs =>
    if c = ':' then ([], (segments cs).1 :: (segments cs).2)
    else (c :: (segments cs).1, (segments cs).2)

/-- The core of the touch that a text encodes: all before the first colon. -/
def coreOf (encoding : String) : String :=
  String.ofList (segments encoding.toList).1

/-- The attributes of the touch that a text encodes. -/
def attributesOf (encoding : String) : List String :=
  let values := (segments encoding.toList).2.map String.ofList
  if encoding.toList.getLast? = some ':' then values.dropLast else values

/-- The touch that a text encodes, without triggers. -/
def ofEncoding (encoding : String) : Touch where
  core := coreOf encoding
  attributes := attributesOf encoding

end TouchAutomata.Touch

/-!
# Failures

How a failure with its causes is told: in one line, without saying anything twice, and in colour on
a terminal. Main statement: what is told begins with the failure itself.
-/

namespace CommandFiles.Report

/-- Whether a text stands somewhere in another one. -/
def isPartOf (part : List Char) : List Char → Bool
  | [] => part.isEmpty
  | c :: rest => part.isPrefixOf (c :: rest) || isPartOf part rest

/-- Puts a cause behind a message, unless the message says it already. -/
def addCause (message cause : String) : String :=
  if isPartOf cause.toList message.toList then message else message ++ ": " ++ cause

/-- A failure and its causes, the outermost first, as one message. -/
def describe : List String → String
  | [] => ""
  | message :: causes => causes.foldl addCause message

/-! ## Colours -/

/-- Whether messages are coloured. -/
structure Painter where
  enabled : Bool
  deriving DecidableEq, Repr

namespace Painter

/-- The sequence that ends a colour. -/
def reset : List Char := ['\x1b', '[', '0', 'm']

/-- Takes up a style again behind every sequence in a text that would end it. -/
def resume (style : List Char) : List Char → List Char
  | '\x1b' :: '[' :: '0' :: 'm' :: rest => reset ++ style ++ resume style rest
  | c :: rest => c :: resume style rest
  | [] => []

/-- A text in a style. -/
def paint (p : Painter) (codes : String) (text : String) : String :=
  if p.enabled then
    let style := '\x1b' :: '[' :: codes.toList ++ ['m']
    String.ofList (style ++ resume style text.toList ++ reset)
  else text

/-- A failure: red and bold. -/
def error (p : Painter) (text : String) : String := p.paint "1;31" text

/-- What is of less weight: dimmed. -/
def dim (p : Painter) (text : String) : String := p.paint "2" text

/-- The line that tells a failure. -/
def failureLine (p : Painter) (message : String) : String :=
  p.error "Error:" ++ " " ++ message

end Painter

theorem isPrefixOf_addCause (message cause : String) :
    message.toList <+: (addCause message cause).toList := by
  unfold addCause
  split
  · exact List.prefix_refl _
  · simp [String.toList_append]

end CommandFiles.Report

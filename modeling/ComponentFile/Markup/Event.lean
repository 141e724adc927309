import ComponentFile.Markup.Token

/-! What reading a document delivers, and what can be wrong with it. Every event and every error
carries the bytes that it is about. -/
namespace ComponentFile.Markup

structure Attribute where
  name : Text
  value : Text
  span : Span
  deriving DecidableEq, Repr

structure StartTag where
  name : Text
  attributes : List Attribute
  span : Span
  selfClosing : Bool
  deriving DecidableEq, Repr

inductive Event where
  | opened (tag : StartTag)
  | closed (name : Text) (span : Span)
  | text (span : Span)
  | comment (span : Span)
  deriving DecidableEq, Repr

def Event.span : Event → Span
  | .opened tag => tag.span
  | .closed _ s => s
  | .text s => s
  | .comment s => s

inductive AttributeFault where
  | missingValue (name : Text)
  | unexpectedValue (name : Text) (found : TokenKind)
  | unexpectedToken (found : TokenKind)
  deriving DecidableEq, Repr

def AttributeFault.message : AttributeFault → Text
  | .missingValue name => "missing value for `" ++ name ++ "`"
  | .unexpectedValue name found => "expected a value for `" ++ name ++ "`, found " ++ found.label
  | .unexpectedToken found => "unexpected " ++ found.label ++ " in tag"

inductive Awaited where
  | declarationEnd (terminator : Text)
  | endTagEnd
  | startTagEnd
  | namedTagEnd (name : Text)
  deriving DecidableEq, Repr

def Awaited.message : Awaited → Text
  | .declarationEnd terminator => "`" ++ terminator ++ "` to close markup declaration"
  | .endTagEnd => "`>` to close end tag"
  | .startTagEnd => "`>` to close start tag"
  | .namedTagEnd name => "`>` to close <" ++ name ++ ">"

inductive Fault where
  | unexpectedEnd (awaited : Awaited)
  | unclosedTag (name : Text)
  | invalidAttribute (fault : AttributeFault)
  | invalidTagName (name : Text)
  deriving DecidableEq, Repr

def Fault.message : Fault → Text
  | .unexpectedEnd awaited => "unexpected end of input: expected " ++ awaited.message
  | .unclosedTag name => "unclosed tag: <" ++ name ++ ">"
  | .invalidAttribute fault => "invalid attribute: " ++ fault.message
  | .invalidTagName name => "invalid tag name: " ++ name

structure ParseError where
  fault : Fault
  span : Span
  deriving DecidableEq, Repr

def ParseError.message (e : ParseError) : Text := e.fault.message

end ComponentFile.Markup

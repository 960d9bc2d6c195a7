import Aite.Basic

/-!
# The tokenizer of the config parser

The tokenizer reads one byte at a time from an input stream and puts the delimiter that ends
a bare word back. The stream follows the rules of C++11: `get` at the end sets `eofbit` and
`failbit`, and `unget` clears `eofbit` first but un-reads nothing when another bit is set.
-/

namespace Aite.Config

/-- A `std::istream` over the bytes of a file. -/
structure IStream where
  /-- The bytes that were extracted, the last one first. -/
  past : Text
  /-- The bytes still to come. -/
  rest : Text
  eofbit : Bool := false
  failbit : Bool := false
  badbit : Bool := false
  deriving DecidableEq, Repr

/-- `good()` -/
def IStream.good (s : IStream) : Bool := !s.eofbit && !s.failbit && !s.badbit

/-- `get()`, which returns `EOF` when it extracts nothing. -/
def IStream.get (s : IStream) : UInt8 × IStream :=
  if s.good then
    match s.rest with
    | [] => (0xff, { s with eofbit := true, failbit := true })
    | c :: rest => (c, { s with past := c :: s.past, rest })
  else (0xff, { s with failbit := true })

/-- `unget()` -/
def IStream.unget (s : IStream) : IStream :=
  let s := { s with eofbit := false }
  if s.good then
    match s.past with
    | [] => { s with badbit := true }
    | c :: past => { s with past, rest := c :: s.rest }
  else { s with failbit := true }

/-- The types of tokens. -/
inductive TokenType where
  | start
  | normal
  | startBlock
  | endBlock
  | comment
  | statementEnd
  | eof
  | error
  | quotedString
  deriving DecidableEq, Repr

/-- The states of the tokenizer. -/
inductive TokenParserState where
  | initialWhitespace
  | singleQuote
  | doubleQuote
  | comment
  | normal
  deriving DecidableEq, Repr

/-- What the quote states do with a byte: whether it closes the string, the value and the
stream. An escape is decoded; before any other byte a backslash stands for itself and the byte
is read again. -/
def readQuoted (quote c : UInt8) (value : Text) (input : IStream) : Bool × Text × IStream :=
  if c = '\\'.toUInt8 then
    let (next_c, input) := input.get
    if !input.good then (false, value, input)
    else if next_c = 't'.toUInt8 then (false, value ++ ['\t'.toUInt8], input)
    else if next_c = 'n'.toUInt8 then (false, value ++ ['\n'.toUInt8], input)
    else if next_c = 'r'.toUInt8 then (false, value ++ ['\r'.toUInt8], input)
    else if next_c = quote then (false, value ++ [quote], input)
    else (false, value ++ [c], input.unget)
  else (c = quote, value ++ [c], input)

/-- The token at the end of the file. -/
def tokenAtEnd (state : TokenParserState) (value : Text) (input : IStream) :
    TokenType × Text × IStream :=
  if state = .singleQuote ∨ state = .doubleQuote then (.error, value, input)
  else if value.length > 1 then
    match state with
    | .normal => (.normal, value, input.unget)
    | .comment => (.comment, value, input.unget)
    | _ => (.error, value, input.unget)
  else (.eof, value, input)

/-- The loop of `ParseToken` over the bytes, with at most `fuel` iterations. -/
def parseTokenLoop : ℕ → TokenParserState → Text → IStream → Run (TokenType × Text × IStream)
  | 0, _, _, _ => .error .outOfFuel
  | fuel + 1, state, value, input =>
    let (c, next) := input.get
    if !input.good then .ok (tokenAtEnd state value input)
    else if !next.good then .ok (tokenAtEnd state value next)
    else
      match state with
      | .initialWhitespace =>
        if c = '\x7b'.toUInt8 then .ok (.startBlock, [c], next)
        else if c = '\x7d'.toUInt8 then .ok (.endBlock, [c], next)
        else if c = '#'.toUInt8 then parseTokenLoop fuel .comment [c] next
        else if c = '"'.toUInt8 then parseTokenLoop fuel .doubleQuote [c] next
        else if c = '\''.toUInt8 then parseTokenLoop fuel .singleQuote [c] next
        else if c = ';'.toUInt8 then .ok (.statementEnd, [c], next)
        else if c = ' '.toUInt8 ∨ c = '\t'.toUInt8 ∨ c = '\n'.toUInt8 ∨ c = '\r'.toUInt8 then
          parseTokenLoop fuel state value next
        else parseTokenLoop fuel .normal (value ++ [c]) next
      | .singleQuote =>
        -- The byte is appended here and once more below.
        let (closed, value, next) := readQuoted '\''.toUInt8 c (value ++ [c]) next
        if closed then .ok (.quotedString, value, next) else parseTokenLoop fuel state value next
      | .doubleQuote =>
        let (closed, value, next) := readQuoted '"'.toUInt8 c value next
        if closed then .ok (.quotedString, value, next) else parseTokenLoop fuel state value next
      | .comment =>
        if c = '\n'.toUInt8 ∨ c = '\r'.toUInt8 then .ok (.comment, value, next)
        else parseTokenLoop fuel state (value ++ [c]) next
      | .normal =>
        if c = ' '.toUInt8 ∨ c = '\t'.toUInt8 ∨ c = '\n'.toUInt8 ∨ c = '\t'.toUInt8 ∨
            c = ';'.toUInt8 ∨ c = '\x7b'.toUInt8 ∨ c = '\x7d'.toUInt8 then
          .ok (.normal, value, next.unget)
        else parseTokenLoop fuel state (value ++ [c]) next

/-- The type and the value of the next token, and the stream behind it. -/
def parseToken (input : IStream) : Run (TokenType × Text × IStream) :=
  parseTokenLoop (input.rest.length + 1) .initialWhitespace [] input

end Aite.Config

import Aite.Config.ParseToken

/-!
# The config parser

The configs under construction live in a store and are named by their addresses; a
statement owns its block through such an address. The parser keeps a stack of pointers to
the configs that are open, the innermost one first. A config whose statement drops it stays
in the store, but no statement leads to it any more.

The counter of open brackets is an unbounded integer.
-/

namespace Aite.Config

/-- The address of a config in the store. -/
abbrev Addr := ℕ

/-- The parsed representation of a single config statement. -/
structure NginxConfigStatement where
  tokens_ : List Text := []
  child_block_ : Option Addr := none
  deriving DecidableEq, Repr

/-- The parsed representation of the entire config. -/
structure NginxConfig where
  statements_ : List NginxConfigStatement := []
  deriving DecidableEq, Repr

/-- The configs that exist, by address. -/
abbrev Store := List NginxConfig

/-- `config_stack.top()` -/
def top (config_stack : List Addr) : Run Addr :=
  match config_stack with
  | [] => .error (.fault .topOfEmpty)
  | a :: _ => .ok a

/-- The config at an address. -/
def Store.deref (store : Store) (a : Addr) : Run NginxConfig :=
  match store[a]? with
  | none => .error (.fault .dangling)
  | some config => .ok config

/-- `config_stack.top()->statements_.emplace_back(new NginxConfigStatement)` -/
def emplaceBack (store : Store) (config_stack : List Addr) : Run Store := do
  let a ← top config_stack
  let config ← store.deref a
  return store.set a { config with statements_ := config.statements_ ++ [{}] }

/-- Changes `config_stack.top()->statements_.back()`. -/
def modifyBack (store : Store) (config_stack : List Addr)
    (f : NginxConfigStatement → NginxConfigStatement) : Run Store := do
  let a ← top config_stack
  let config ← store.deref a
  match config.statements_.getLast? with
  | none => .error (.fault .backOfEmpty)
  | some back =>
    return store.set a { config with statements_ := config.statements_.dropLast ++ [f back] }

/-- `config_stack.top()->statements_.back().get()->tokens_.push_back(token)` -/
def pushToken (store : Store) (config_stack : List Addr) (token : Text) : Run Store :=
  modifyBack store config_stack fun back => { back with tokens_ := back.tokens_ ++ [token] }

/-- `config_stack.top()->statements_.back().get()->child_block_.reset(new_config)` -/
def resetChildBlock (store : Store) (config_stack : List Addr) (new_config : Addr) : Run Store :=
  modifyBack store config_stack fun back => { back with child_block_ := some new_config }

/-- The variables of `Parse` between two tokens. -/
structure ParseState where
  config_file : IStream
  store : Store
  config_stack : List Addr
  last_token_type : TokenType := .start
  bracketCtr : ℤ := 0
  deriving DecidableEq, Repr

/-- What one iteration of the loop does: go on, or leave it with a verdict. -/
inductive Iteration where
  | next (s : ParseState)
  | done (verdict : Bool) (store : Store)
  deriving DecidableEq, Repr

/-- A bare word opens a new statement unless the last token was a word. -/
def onNormal (s : ParseState) (token : Text) : Run Iteration :=
  if s.last_token_type = .start ∨ s.last_token_type = .statementEnd ∨
      s.last_token_type = .startBlock ∨ s.last_token_type = .endBlock ∨
      s.last_token_type = .normal ∨ s.last_token_type = .quotedString then do
    let store ← if s.last_token_type ≠ .normal ∧ s.last_token_type ≠ .quotedString then
      emplaceBack s.store s.config_stack else pure s.store
    let store ← pushToken store s.config_stack token
    return .next { s with store, last_token_type := .normal }
  else return .done false s.store

/-- A quoted string has to be followed by a blank, a semicolon or an open bracket. -/
def onQuotedString (s : ParseState) (token : Text) : Run Iteration :=
  let (next_char, config_file) := s.config_file.get
  if !config_file.good then return .done false s.store
  else if next_char ≠ ' '.toUInt8 ∧ next_char ≠ '\t'.toUInt8 ∧ next_char ≠ '\n'.toUInt8 ∧
      next_char ≠ '\r'.toUInt8 ∧ next_char ≠ ';'.toUInt8 ∧ next_char ≠ '\x7b'.toUInt8 then
    return .done false s.store
  else do
    let store ← pushToken s.store s.config_stack token
    return .next
      { s with config_file := config_file.unget, store, last_token_type := .quotedString }

/-- A statement ends after a word. -/
def onStatementEnd (s : ParseState) : Run Iteration :=
  if s.last_token_type ≠ .normal ∧ s.last_token_type ≠ .quotedString then
    return .done false s.store
  else return .next { s with last_token_type := .statementEnd }

/-- A block starts after a word. -/
def onStartBlock (s : ParseState) : Run Iteration :=
  let bracketCtr := s.bracketCtr + 1
  if s.last_token_type ≠ .normal ∧ s.last_token_type ≠ .quotedString then
    return .done false s.store
  else do
    -- `new NginxConfig` has the next free address.
    let new_config := s.store.length
    let store ← resetChildBlock (s.store ++ [({} : NginxConfig)]) s.config_stack new_config
    return .next { s with
      store, config_stack := new_config :: s.config_stack, last_token_type := .startBlock,
      bracketCtr }

/-- A block ends after a statement or at its start. -/
def onEndBlock (s : ParseState) : Run Iteration :=
  let bracketCtr := s.bracketCtr - 1
  if s.last_token_type ≠ .statementEnd ∧ s.last_token_type ≠ .endBlock ∧
      s.last_token_type ≠ .startBlock then
    return .done false s.store
  else
    match s.config_stack with
    | [] => .error (.fault .popOfEmpty)
    | _ :: config_stack =>
      return .next { s with config_stack, last_token_type := .endBlock, bracketCtr }

/-- The file ends after a statement or where it starts. -/
def onEof (s : ParseState) : Run Iteration :=
  if s.bracketCtr ≠ 0 then return .done false s.store
  else if s.last_token_type ≠ .statementEnd ∧ s.last_token_type ≠ .endBlock ∧
      s.last_token_type ≠ .start then
    return .done false s.store
  else return .done true s.store

/-- What a token of a type does. -/
def onToken (token_type : TokenType) (token : Text) (s : ParseState) : Run Iteration :=
  match token_type with
  | .error => return .done false s.store
  | .comment => return .next s
  | .start => return .done false s.store
  | .normal => onNormal s token
  | .quotedString => onQuotedString s token
  | .statementEnd => onStatementEnd s
  | .startBlock => onStartBlock s
  | .endBlock => onEndBlock s
  | .eof => onEof s

/-- One iteration of the loop of `Parse`. -/
def parseStep (s : ParseState) : Run Iteration :=
  if s.bracketCtr < 0 then return .done false s.store
  else do
    let (token_type, token, config_file) ← parseToken s.config_file
    onToken token_type token { s with config_file }

/-- The loop of `Parse`, with at most `fuel` iterations. -/
def parseLoop : ℕ → ParseState → Run (Bool × Store)
  | 0, _ => .error .outOfFuel
  | fuel + 1, s => do
    match ← parseStep s with
    | .next s => parseLoop fuel s
    | .done verdict store => return (verdict, store)

/-- Parses an opened config file into the config at an address. -/
def parse (config_file : IStream) (store : Store) (config : Addr) : Run (Bool × Store) :=
  parseLoop (config_file.rest.length + 2) { config_file, store, config_stack := [config] }

/-- The stream at the start of a file. -/
def IStream.ofText (file : Text) : IStream := { past := [], rest := file }

/-- The verdict on a text, and the store after it was parsed into an empty config at address
zero. -/
def parseText (file : Text) : Run (Bool × Store) := parse (.ofText file) [{}] 0

end Aite.Config

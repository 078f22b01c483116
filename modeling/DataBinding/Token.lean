import DataBinding.Fault

/-!
# Tokens of expressions

A token carries its own text and its place in bytes. The tokens of a text form a stream that is finite
as a value and never runs out when it is read: behind the last token the end of the text comes again and
again, and a fault either lets the reading go on behind it or comes back every time.
-/
namespace DataBinding

inductive TokenKind where
  | symbol
  /-- A quoted text; the token's text and place leave out the quotes. -/
  | string
  | number
  | ident
  | eof
  deriving DecidableEq, Repr

structure Token where
  kind : TokenKind
  text : String
  start : Nat
  stop : Nat
  deriving DecidableEq, Repr

namespace Token

def eof (offset : Nat) : Token := ⟨.eof, "", offset, offset⟩

/-- The text of a token that stands for itself; empty for quoted texts. -/
def word (t : Token) : String :=
  match t.kind with
  | .symbol | .number | .ident => t.text
  | .string | .eof => ""

def isSymbol (t : Token) (text : String) : Bool := t.kind == .symbol && t.text == text

def isKeyword (t : Token) (text : String) : Bool := t.kind == .ident && t.text == text

def fault (t : Token) (cause : Cause) : Fault := .spanning cause t.start (t.stop - t.start)

end Token

inductive TokenStream where
  | eof (offset : Nat)
  /-- A fault that reading does not get past. -/
  | stuck (fault : Fault)
  /-- A fault behind which reading goes on. -/
  | skip (fault : Fault) (rest : TokenStream)
  | token (head : Token) (rest : TokenStream)
  deriving Repr

namespace TokenStream

/-- Reads the next token. The stream advances also when there is a fault in place of a token. -/
def next : TokenStream → Except Fault Token × TokenStream
  | .eof offset => (.ok (.eof offset), .eof offset)
  | .stuck fault => (.error fault, .stuck fault)
  | .skip fault rest => (.error fault, rest)
  | .token head rest => (.ok head, rest)

def size : TokenStream → Nat
  | .eof _ | .stuck _ => 0
  | .skip _ rest | .token _ rest => rest.size + 1

def toList : TokenStream → List Token × Option Fault
  | .eof offset => ([.eof offset], none)
  | .stuck fault | .skip fault _ => ([], some fault)
  | .token head rest =>
    let (tokens, fault) := rest.toList
    (head :: tokens, fault)

end TokenStream
end DataBinding

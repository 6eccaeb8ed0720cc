import Interop.Json.Basic
import Interop.Json.Token

/-!
# Reading JSON text

The tokens are consumed one at a time by a machine whose stack holds the arrays and objects that are
still open, so that reading is a fold over the token list.
-/

namespace Interop.Json

/-- An array or an object that is still open, with what it holds so far in reverse. -/
inductive Frame where
  | items (done : List Json)
  | fields (done : List (Option String × Json))
  | entry (done : List (Option String × Json)) (key : Option String)

inductive Awaiting where
  | value (opened : Bool)
  | key (opened : Bool)
  | colon
  /-- A separator or the end, after a complete value. -/
  | next (complete : Json)

structure State where
  stack : List Frame
  awaiting : Awaiting

def State.stepValue (stack : List Frame) (opened : Bool) : Token → Option State
  | .null => some ⟨stack, .next .null⟩
  | .bool b => some ⟨stack, .next (.bool b)⟩
  | .int n => some ⟨stack, .next (.int n)⟩
  | .real lexeme => some ⟨stack, .next (.real lexeme)⟩
  | .text content => some ⟨stack, .next (.text content)⟩
  | .beginArray => some ⟨.items [] :: stack, .value true⟩
  | .beginObject => some ⟨.fields [] :: stack, .key true⟩
  | .endArray =>
    match opened, stack with
    | true, .items done :: stack => some ⟨stack, .next (.arr done.reverse)⟩
    | _, _ => none
  | _ => none

def State.stepNext (stack : List Frame) (complete : Json) (token : Token) : Option State :=
  match stack, token with
  | .items done :: stack, .comma => some ⟨.items (complete :: done) :: stack, .value false⟩
  | .items done :: stack, .endArray => some ⟨stack, .next (.arr (complete :: done).reverse)⟩
  | .entry done key :: stack, .comma =>
    some ⟨.fields ((key, complete) :: done) :: stack, .key false⟩
  | .entry done key :: stack, .endObject =>
    some ⟨stack, .next (.obj ((key, complete) :: done).reverse)⟩
  | _, _ => none

/-- The state after one more token, or `none` if the token cannot stand here. -/
def State.step (state : State) (token : Token) : Option State :=
  match state.awaiting with
  | .value opened => stepValue state.stack opened token
  | .key opened =>
    match state.stack, token with
    | .fields done :: stack, .text key => some ⟨.entry done key :: stack, .colon⟩
    | .fields done :: stack, .endObject =>
      if opened then some ⟨stack, .next (.obj done.reverse)⟩ else none
    | _, _ => none
  | .colon =>
    match token with
    | .colon => some ⟨state.stack, .value false⟩
    | _ => none
  | .next complete => stepNext state.stack complete token

def State.run (state : State) : List Token → Option State
  | [] => some state
  | token :: rest => do (← state.step token).run rest

def ofTokens (tokens : List Token) : Option Json := do
  match ← State.run ⟨[], .value false⟩ tokens with
  | ⟨[], .next complete⟩ => some complete
  | _ => none

/-- Reads a text that holds one document and nothing else. -/
def parse (s : String) : Option Json := do
  ofTokens (← tokens s)

end Interop.Json

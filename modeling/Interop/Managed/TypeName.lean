import Interop.Text.Basic

/-!
# C# type names
-/

namespace Interop.Managed

inductive TypeName where
  | named (name : String)
  | pointer (target : TypeName)
  | array (element : TypeName)
  | span (element : TypeName)
  | functionPointer (convention : String) (params : List TypeName) (result : TypeName)

namespace TypeName

mutual

def text : TypeName → String
  | .named name => name
  | .pointer target => target.text ++ "*"
  | .array element => element.text ++ "[]"
  | .span element => "Span<" ++ element.text ++ ">"
  | .functionPointer convention params result =>
    "delegate* unmanaged[" ++ convention ++ "]<" ++
      Text.joinWith ", " (texts params ++ [result.text]) ++ ">"

def texts : List TypeName → List String
  | [] => []
  | t :: rest => t.text :: texts rest

end

end TypeName

end Interop.Managed

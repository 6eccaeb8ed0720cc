import Interop.Managed.Literal
import Interop.Managed.Stmt

/-!
# C# declarations

The members of a struct or of a static class, and the attributes in front of them. A member is a
tree; its lines follow from it.
-/

namespace Interop.Managed

/-! ## Attributes -/

inductive Attribute where
  | structLayout (isExplicit : Bool) (pack : Option Nat)
  | fieldOffset (bytes : Nat)
  | nativeTypeName (native : String)
  | returnNativeTypeName (native : String)
  | obsolete (message : Option String)
  | inlineArray (size : Nat)
  | unscopedRef
  | dllImport (library convention : String) (entryPoint : Option String)

def Attribute.text : Attribute → String
  | .structLayout isExplicit pack =>
    let kind := if isExplicit then "LayoutKind.Explicit" else "LayoutKind.Sequential"
    match pack with
    | some pack => "[StructLayout(" ++ kind ++ ", Pack = " ++ pack.repr ++ ")]"
    | none => "[StructLayout(" ++ kind ++ ")]"
  | .fieldOffset bytes => "[FieldOffset(" ++ bytes.repr ++ ")]"
  | .nativeTypeName native => "[NativeTypeName(" ++ stringLiteral native ++ ")]"
  | .returnNativeTypeName native => "[return: NativeTypeName(" ++ stringLiteral native ++ ")]"
  | .obsolete (some message) => "[Obsolete(" ++ stringLiteral message ++ ")]"
  | .obsolete none => "[Obsolete]"
  | .inlineArray size => "[InlineArray(" ++ size.repr ++ ")]"
  | .unscopedRef => "[UnscopedRef]"
  | .dllImport library convention entryPoint =>
    let entry := entryPoint.toList.map fun e => "EntryPoint = " ++ stringLiteral e
    "[DllImport(" ++
      Text.joinWith ", "
        ([stringLiteral library, "CallingConvention = CallingConvention." ++ convention] ++ entry ++
          ["ExactSpelling = true"]) ++ ")]"

def attributesCode (attrs : List Attribute) : Code :=
  attrs.flatMap fun a => Code.ofText a.text

/-! ## Methods -/

inductive Parameter where
  | value (native : Option String) (type : TypeName) (name : String)
  | receiver (record : String)
  | arglist

def Parameter.text : Parameter → String
  | .value (some native) type name =>
    (Attribute.nativeTypeName native).text ++ " " ++ type.text ++ " " ++ name
  | .value none type name => type.text ++ " " ++ name
  | .receiver record => record ++ "* pThis"
  | .arglist => "__arglist"

/-- A method. One without a body is imported. -/
structure Method where
  attrs : List Attribute
  isStatic : Bool
  result : TypeName
  name : String
  params : List Parameter
  body : Option (List Stmt)

def Method.code (m : Method) : Code :=
  let signature :=
    m.result.text ++ " " ++ m.name ++ "(" ++ Text.joinWith ", " (m.params.map Parameter.text) ++ ")"
  attributesCode m.attrs ++
    match m.body with
    | some body =>
      Code.ofText ((if m.isStatic then "public static " else "public ") ++ signature) ++
        Code.braced (Stmt.bodyCode none body)
    | none => Code.ofText ("public static extern " ++ signature ++ ";")

/-! ## Members -/

inductive FieldKind where
  | plain
  | buffer (size : Nat)
  | static
  | const

structure EnumMember where
  attrs : List Attribute
  name : String
  value : Option Expr

def EnumMember.code (m : EnumMember) : Code :=
  attributesCode m.attrs ++
    match m.value with
    | some value => Code.ofText (m.name ++ " = " ++ value.text ++ ",")
    | none => Code.ofText (m.name ++ ",")

inductive Member where
  | field (attrs : List Attribute) (kind : FieldKind) (type : TypeName) (name : String)
      (value : Option Expr)
  /-- A value that is read by the first expression and written by the second one. -/
  | property (attrs : List Attribute) (type : TypeName) (name : String) (getter setter : Expr)
  | accessor (attrs : List Attribute) (isRef : Bool) (type : TypeName) (name : String) (value : Expr)
  | method (m : Method)
  | record (attrs : List Attribute) (isUnsafe : Bool) (name : String) (members : List Member)
  | enum (attrs : List Attribute) (name : String) (underlying : Option TypeName)
      (constants : List EnumMember)

def wordBlock (word : String) (body : String) : Code :=
  Code.ofText word ++ Code.braced (Code.ofText body)

def fieldText (kind : FieldKind) (type : TypeName) (name : String) (value : Option Expr) : String :=
  let initial :=
    match value with
    | some value => " = " ++ value.text
    | none => ""
  match kind with
  | .plain => "public " ++ type.text ++ " " ++ name ++ initial ++ ";"
  | .buffer size => "public fixed " ++ type.text ++ " " ++ name ++ "[" ++ size.repr ++ "];"
  | .static => "public static " ++ type.text ++ " " ++ name ++ initial ++ ";"
  | .const => "public const " ++ type.text ++ " " ++ name ++ initial ++ ";"

namespace Member

mutual

def code : Member → Code
  | .field attrs kind type name value =>
    attributesCode attrs ++ Code.ofText (fieldText kind type name value)
  | .property attrs type name getter setter =>
    attributesCode attrs ++ Code.ofText ("public " ++ type.text ++ " " ++ name) ++
      Code.braced (wordBlock "readonly get" ("return " ++ getter.text ++ ";") ++ Code.blank ++
        wordBlock "set" (setter.text ++ ";"))
  | .accessor attrs isRef type name value =>
    attributesCode attrs ++
      Code.ofText ("public " ++ (if isRef then "ref " else "") ++ type.text ++ " " ++ name) ++
      Code.braced (wordBlock "get" ("return " ++ value.text ++ ";"))
  | .method m => m.code
  | .record attrs isUnsafe name members =>
    attributesCode attrs ++
      Code.ofText ((if isUnsafe then "public unsafe partial" else "public partial") ++ " struct " ++
        name) ++
      Code.braced (Code.spaced (codes members))
  | .enum attrs name underlying constants =>
    let base :=
      match underlying with
      | some type => " : " ++ type.text
      | none => ""
    attributesCode attrs ++ Code.ofText ("public enum " ++ name ++ base) ++
      Code.braced (constants.flatMap EnumMember.code)

def codes : List Member → List Code
  | [] => []
  | m :: rest => m.code :: codes rest

end

def text (m : Member) : String :=
  m.code.trimmedText

end Member

end Interop.Managed

import Interop.Native.Ast
import Interop.Native.Format.Names

/-!
# Descriptions of syntax trees

Every part of a syntax tree as a described value, with its fields in their stored order.
-/

namespace Interop

def Datum.nat (n : Nat) : Datum :=
  .number n

def Location.describe (l : Location) : Datum :=
  .record "SourceLocation"
    [("file", .option .text l.file), ("line", .nat l.line.toNat), ("column", .nat l.column.toNat)]

namespace Native

def DeclId.describe (id : DeclId) : Datum := .wrapper "DeclId" (.nat id.index)

def StmtId.describe (id : StmtId) : Datum := .wrapper "StmtId" (.nat id.index)

def ExprId.describe (id : ExprId) : Datum := .wrapper "ExprId" (.nat id.index)

def TypeId.describe (id : TypeId) : Datum := .wrapper "TypeId" (.nat id.index)

/-! ## Types -/

def TypeKind.describe : TypeKind → Datum
  | .builtin kind => .tagged "Builtin" (describeName Builtin.names kind)
  | .pointer pointee => .fielded "Pointer" [("pointee", pointee.describe)]
  | .lvalueReference referent => .fielded "LValueReference" [("referent", referent.describe)]
  | .rvalueReference referent => .fielded "RValueReference" [("referent", referent.describe)]
  | .constantArray element size =>
    .fielded "ConstantArray" [("element", element.describe), ("size", .nat size.toNat)]
  | .incompleteArray element => .fielded "IncompleteArray" [("element", element.describe)]
  | .function proto =>
    .fielded "FunctionProto"
      [("return_type", proto.result.describe), ("params", .listOf TypeId.describe proto.params),
       ("is_variadic", .flag proto.isVariadic),
       ("calling_convention", .option (describeName Convention.names) proto.convention)]
  | .record decl => .fielded "Record" [("decl", decl.describe)]
  | .enum decl => .fielded "Enum" [("decl", decl.describe)]
  | .typedef decl underlying =>
    .fielded "Typedef" [("decl", decl.describe), ("underlying", underlying.describe)]
  | .specialization template canonical =>
    .fielded "TemplateSpecialization"
      [("template", .text template), ("canonical", .option TypeId.describe canonical)]
  | .unexposed => .bare "Unexposed"

def Ty.describe (t : Ty) : Datum :=
  .record "NativeType"
    [("kind", t.kind.describe), ("spelling", .text t.spelling),
     ("size", .option (fun n : UInt64 => .nat n.toNat) t.size), ("is_const", .flag t.isConst)]

/-! ## Declarations -/

def Deprecation.describe (d : Deprecation) : Datum :=
  .record "Deprecation" [("message", .option .text d.message)]

def Attributes.describe (a : Attributes) : Datum :=
  .record "Attributes"
    [("deprecated", .option Deprecation.describe a.deprecated),
     ("asm_label", .option .text a.asmLabel),
     ("packed", .option (fun n : UInt32 => .nat n.toNat) a.packed)]

def Base.describe (b : Base) : Datum :=
  .record "BaseSpecifier"
    [("ty", b.type.describe), ("is_virtual", .flag b.isVirtual),
     ("access", describeName Access.names b.access)]

def DeclKind.describe : DeclKind → Datum
  | .scope decls => .fielded "Namespace" [("decls", .listOf DeclId.describe decls)]
  | .linkageSpec linkage decls =>
    .fielded "LinkageSpec"
      [("linkage", describeName Linkage.names linkage), ("decls", .listOf DeclId.describe decls)]
  | .record r =>
    .fielded "Record"
      [("tag", describeName RecordTag.names r.tag), ("is_definition", .flag r.isDefinition),
       ("is_anonymous", .flag r.isAnonymous), ("bases", .listOf Base.describe r.bases),
       ("members", .listOf DeclId.describe r.members)]
  | .field f =>
    .fielded "Field"
      [("ty", f.type.describe),
       ("bit_width", .option (fun n : UInt32 => .nat n.toNat) f.bitWidth),
       ("offset_bits", .option (fun n : UInt64 => .nat n.toNat) f.offsetBits)]
  | .enum e =>
    .fielded "Enum"
      [("integer_type", e.integerType.describe), ("is_scoped", .flag e.isScoped),
       ("constants", .listOf DeclId.describe e.constants)]
  | .constant value init =>
    .fielded "EnumConstant"
      [("value", .number value.toInt), ("init", .option ExprId.describe init)]
  | .function f =>
    .fielded "Function"
      [("ty", f.type.describe), ("params", .listOf DeclId.describe f.params),
       ("body", .option StmtId.describe f.body), ("linkage", describeName Linkage.names f.linkage),
       ("storage", describeName Storage.names f.storage),
       ("mangled_name", .option .text f.mangledName)]
  | .method m =>
    .fielded "Method"
      [("ty", m.type.describe), ("params", .listOf DeclId.describe m.params),
       ("body", .option StmtId.describe m.body), ("is_static", .flag m.isStatic),
       ("is_virtual", .flag m.isVirtual), ("is_pure", .flag m.isPure),
       ("mangled_name", .option .text m.mangledName)]
  | .constructor params body =>
    .fielded "Constructor"
      [("params", .listOf DeclId.describe params), ("body", .option StmtId.describe body)]
  | .destructor isVirtual body =>
    .fielded "Destructor"
      [("is_virtual", .flag isVirtual), ("body", .option StmtId.describe body)]
  | .param type => .fielded "Param" [("ty", type.describe)]
  | .var v =>
    .fielded "Var"
      [("ty", v.type.describe), ("init", .option ExprId.describe v.init),
       ("storage", describeName Storage.names v.storage)]
  | .typedef underlying => .fielded "Typedef" [("underlying", underlying.describe)]
  | .other kind => .fielded "Other" [("kind", .text kind)]

def Decl.describe (d : Decl) : Datum :=
  .record "Decl"
    [("kind", d.kind.describe), ("name", .text d.name),
     ("parent", .option DeclId.describe d.parent), ("location", d.location.describe),
     ("attrs", d.attrs.describe)]

/-! ## Statements -/

def StmtKind.describe : StmtKind → Datum
  | .compound children => .tagged "Compound" (.listOf StmtId.describe children)
  | .decls ds => .tagged "Decl" (.listOf DeclId.describe ds)
  | .expr value => .tagged "Expr" value.describe
  | .ret value => .tagged "Return" (.option ExprId.describe value)
  | .ifElse cond thenBranch elseBranch =>
    .fielded "If"
      [("cond", cond.describe), ("then_branch", thenBranch.describe),
       ("else_branch", .option StmtId.describe elseBranch)]
  | .whileLoop cond body => .fielded "While" [("cond", cond.describe), ("body", body.describe)]
  | .doLoop body cond => .fielded "Do" [("body", body.describe), ("cond", cond.describe)]
  | .forLoop init cond inc body =>
    .fielded "For"
      [("init", .option StmtId.describe init), ("cond", .option ExprId.describe cond),
       ("inc", .option ExprId.describe inc), ("body", body.describe)]
  | .switch cond body => .fielded "Switch" [("cond", cond.describe), ("body", body.describe)]
  | .caseLabel value body => .fielded "Case" [("value", value.describe), ("body", body.describe)]
  | .defaultLabel body => .fielded "Default" [("body", body.describe)]
  | .breakOut => .bare "Break"
  | .continueLoop => .bare "Continue"
  | .empty => .bare "Null"
  | .other kind => .fielded "Other" [("kind", .text kind)]

def Stmt.describe (s : Stmt) : Datum :=
  .record "Stmt" [("kind", s.kind.describe), ("location", s.location.describe)]

/-! ## Expressions -/

def ExprKind.describe : ExprKind → Datum
  | .integer spelling => .fielded "IntegerLiteral" [("spelling", .text spelling)]
  | .floating spelling => .fielded "FloatingLiteral" [("spelling", .text spelling)]
  | .character value => .fielded "CharacterLiteral" [("value", .nat value.toNat)]
  | .string value charWidth =>
    .fielded "StringLiteral" [("value", .text value), ("char_width", .nat charWidth.toNat)]
  | .bool value => .tagged "BoolLiteral" (.flag value)
  | .nullPtr => .bare "NullPtrLiteral"
  | .declRef decl => .fielded "DeclRef" [("decl", decl.describe)]
  | .paren inner => .tagged "Paren" inner.describe
  | .unary op operand =>
    .fielded "Unary" [("op", describeName unaryOpNames op), ("operand", operand.describe)]
  | .binary op lhs rhs =>
    .fielded "Binary"
      [("op", describeName binaryOpNames op), ("lhs", lhs.describe), ("rhs", rhs.describe)]
  | .conditional cond thenExpr elseExpr =>
    .fielded "Conditional"
      [("cond", cond.describe), ("then_expr", thenExpr.describe), ("else_expr", elseExpr.describe)]
  | .call callee args =>
    .fielded "Call" [("callee", callee.describe), ("args", .listOf ExprId.describe args)]
  | .member base target isArrow =>
    .fielded "Member"
      [("base", base.describe), ("member", target.describe), ("is_arrow", .flag isArrow)]
  | .subscript base index =>
    .fielded "ArraySubscript" [("base", base.describe), ("index", index.describe)]
  | .implicitCast kind operand =>
    .fielded "ImplicitCast"
      [("kind", describeName CastKind.names kind), ("operand", operand.describe)]
  | .explicitCast style kind operand =>
    .fielded "ExplicitCast"
      [("style", describeName CastStyle.names style), ("kind", describeName CastKind.names kind),
       ("operand", operand.describe)]
  | .initList elements => .tagged "InitList" (.listOf ExprId.describe elements)
  | .valueInit => .bare "ImplicitValueInit"
  | .thisPointer implicit => .fielded "This" [("implicit", .flag implicit)]
  | .sizeOf arg => .fielded "SizeOf" [("arg", arg.describe)]
  | .other kind => .fielded "Other" [("kind", .text kind)]

def Expr.describe (e : Expr) : Datum :=
  .record "Expr"
    [("kind", e.kind.describe), ("ty", e.type.describe), ("location", e.location.describe)]

/-! ## Trees -/

def Ast.describe (ast : Ast) : Datum :=
  .record "TranslationUnit"
    [("file", .text ast.file), ("top_level", .listOf DeclId.describe ast.topLevel),
     ("decls", .listOf Decl.describe ast.decls.toList),
     ("stmts", .listOf Stmt.describe ast.stmts.toList),
     ("exprs", .listOf Expr.describe ast.exprs.toList),
     ("types", .listOf Ty.describe ast.types.toList)]

def Ast.store (ast : Ast) : String :=
  ast.describe.json.pretty

def Ast.dump (ast : Ast) : String :=
  ast.describe.dump

end Native

end Interop

import Interop.Proofs.Completion.Statements

/-!
# Functions, enumerations and variables that complete

The rules that do not go from declaration to declaration. The body of a function is emitted with the
result type of its prototype in scope, which the tree holds because the prototype names it.
-/

namespace Interop.Binding

open Native (Ast ExprId DeclId TypeId StmtId TypeKind DeclKind Ref Prototype)
open Emit

namespace Env.IntactIn

variable {id : DeclId} {proto : Prototype}

variable {env : Env} {scope : Scope} (h : env.IntactIn scope)

include h

/-! ## Functions -/

theorem parameterOf (hid : env.HasDecl id) : (parameterOf id).Completes env scope := by
  refine .decl hid fun d hd => ?_
  split
  · exact (h.mapType (h.ofDecl hd (by simp [*])) _ _).skip fun _ => completes_nameOf.returned
  · exact .malformed

theorem parameterType (hid : env.HasDecl id) : (parameterType id).Completes env scope := by
  refine .decl hid fun d hd => ?_
  split
  · exact (h.mapType (h.ofDecl hd (by simp [*])) _ _).returned
  · exact .malformed

theorem signatureOf (htype : env.HasType type) (location : Location) :
    (signatureOf type location).Completes env scope := by
  refine .skip (h.prototypeOf htype) fun _ => ?_
  split <;> simp

theorem inRange_signatureOf (hgives : (Binding.signatureOf type location).Gives env scope proto) :
    env.HasType proto.result := by
  simp only [Binding.signatureOf, gives_bind] at hgives
  obtain ⟨found, hfound, hgives⟩ := hgives
  cases found with
  | none => simp at hgives
  | some found =>
    obtain rfl := gives_pure.mp hgives
    exact h.inRange_prototypeOf hfound _ (by simp)

omit h in
theorem importAttribute (d : Native.Decl) (c : Callable) (convention : Option Native.Convention) :
    (importAttribute d c convention).Completes env scope := by
  simp only [Binding.importAttribute]
  split <;> simp

theorem definedMethod (hid : env.HasDecl id) (d : Native.Decl) (c : Callable)
    (hresult : env.HasType proto.result) (result : MappedType) (params : List Managed.Parameter)
    (hbody : env.HasStmt body) : (definedMethod id d c proto result params body).Completes env scope := by
  simp only [Binding.definedMethod]
  split
  · exact .unsupported
  · simp [completes_obsoleteAttribute hid, (h.enterFunction hresult).emitBody hbody]

omit h in
theorem importedMethod (hid : env.HasDecl id) (d : Native.Decl) (c : Callable) (proto : Prototype)
    (result : MappedType) (params : List Managed.Parameter) :
    (importedMethod id d c proto result params).Completes env scope := by
  simp [Binding.importedMethod, importAttribute, completes_obsoleteAttribute hid]

theorem methodOf (hid : env.HasDecl id) (d : Native.Decl) {c : Callable} (htype : env.HasType c.type)
    (hparams : ∀ p ∈ c.params, env.HasDecl p) (hbody : ∀ body, c.body = some body → env.HasStmt body) :
    (methodOf id d c).Completes env scope := by
  simp only [Binding.methodOf, completes_bind]
  refine ⟨h.signatureOf htype _, fun proto hproto => ?_⟩
  have hresult := h.inRange_signatureOf hproto
  refine ⟨h.mapType hresult _ _, fun result _ => ?_⟩
  refine ⟨completes_forEach fun p hp => h.parameterOf (hparams p hp), fun params _ => ?_⟩
  split
  · rename_i body hsome
    simp [h.definedMethod hid d c hresult result params (hbody body hsome)]
  · simp [importedMethod hid]

theorem emitFunction (hid : env.HasDecl id) : (emitFunction id).Completes env scope := by
  refine .decl hid fun d hd => ?_
  split
  · rename_i f _
    exact h.methodOf hid d (h.ofDecl hd (by simp [*])) (fun p hp => h.ofDecl hd (by simp [*]))
      fun body (_ : f.body = some body) => h.ofDecl hd (by simp [*])
  · exact .malformed

theorem emitMethod (record : DeclId) (hid : env.HasDecl id) :
    (emitMethod record id).Completes env scope := by
  refine .decl hid fun d hd => ?_
  split
  · rename_i m _
    refine .skip (by simp) fun _ => ?_
    exact h.methodOf hid d (h.ofDecl hd (by simp [*])) (fun p hp => h.ofDecl hd (by simp [*]))
      fun body (_ : m.body = some body) => h.ofDecl hd (by simp [*])
  · exact .malformed

theorem emitTrampoline (record : DeclId) (slot : Nat) (hid : env.HasDecl id) :
    (emitTrampoline record slot id).Completes env scope := by
  refine .decl hid fun d hd => ?_
  split
  · rename_i m _
    have hparams : ∀ p ∈ m.params, env.HasDecl p := fun p _ => h.ofDecl hd (by simp [*])
    refine .bind (h.prototypeOf (h.ofDecl hd (by simp [*]))) fun found hfound => ?_
    cases found with
    | none => exact .malformed
    | some proto =>
      have hresult := h.inRange_prototypeOf hfound proto.result (by simp)
      dsimp only
      split
      · exact .unsupported
      · split
        · exact .unsupported
        · simp [h.mapType hresult, completes_obsoleteAttribute hid,
            completes_forEach fun p hp => h.parameterOf (hparams p hp),
            completes_forEach fun p hp => h.parameterType (hparams p hp),
            completes_forEach fun p _ => completes_nameOf]
  · exact .malformed

theorem emitTrampolines (record : DeclId) : (emitTrampolines record).Completes env scope := by
  simp only [Binding.emitTrampolines, completes_bind, completes_symbols, gives_symbols, true_and,
    forall_eq]
  split
  · rename_i layout hlayout
    simp only [completes_bind]
    refine ⟨completes_forEach fun entry hslot => ?_, fun _ _ => .pure⟩
    obtain ⟨id, slot⟩ := entry
    have hid := h.vtable record layout hlayout id (List.fst_mem_of_mem_zipIdx hslot)
    exact completes_skippableMember (h.emitTrampoline record slot hid)
  · exact .pure

/-! ## Enumerations and variables -/

theorem constantOf (hid : env.HasDecl id) : (constantOf id).Completes env scope := by
  refine .decl hid fun d hd => ?_
  split
  · exact .pure
  · refine h.usedBy (h.ofDecl hd (by simp [*])) fun _ _ _ _ => ?_
    split <;> exact .pure
  · exact .malformed

theorem enumMemberOf (hid : env.HasDecl id) : (enumMemberOf id).Completes env scope := by
  simp [Binding.enumMemberOf, completes_obsoleteAttribute hid, h.constantOf hid]

theorem emitEnum (hid : env.HasDecl id) : (emitEnum id).Completes env scope := by
  refine .decl hid fun d hd => ?_
  split
  · rename_i e _
    have hconstants : ∀ c ∈ e.constants, env.HasDecl c := fun c _ => h.ofDecl hd (by simp [*])
    refine .skip (h.mapType (h.ofDecl hd (by simp [*])) _ _) fun _ => ?_
    simp [h.typeObsoleteAttribute hid, completes_forEach fun c hc => h.enumMemberOf (hconstants c hc)]
  · exact .malformed

theorem emitConstant (henum : env.HasDecl enumeration) (hid : env.HasDecl id) :
    (emitConstant enumeration id).Completes env scope := by
  refine .decl henum fun d hd => ?_
  split
  · refine .skip (h.mapType (h.ofDecl hd (by simp [*])) _ _) fun _ => ?_
    simp [h.constantOf hid, completes_obsoleteAttribute hid]
  · exact .malformed

theorem emitGlobal (hid : env.HasDecl id) : (emitGlobal id).Completes env scope := by
  refine .decl hid fun d hd => ?_
  split
  · rename_i v _
    have htype : env.HasType v.type := h.ofDecl hd (by simp [*])
    split
    · exact .unsupported
    · refine .skip (h.mapType htype _ _) fun mapped => .skip (completes_obsoleteAttribute hid) fun _ => ?_
      refine .skip (by simp) fun _ => ?_
      split
      · rename_i init _
        have hinit : env.HasExpr init := h.ofDecl hd (by simp [*])
        simp [Ast.isSome_type?, htype, h.emitValue hinit]
      · refine .bind (h.canonicalKind htype) fun kind hkind => ?_
        split
        · exact (h.mapType (h.ofKind (gives_canonicalKind.mp hkind) (by simp [*])) _ _).returned
        · exact .pure
  · exact .malformed

end Env.IntactIn

end Interop.Binding

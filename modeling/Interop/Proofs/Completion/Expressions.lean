import Interop.Proofs.Completion.Steps

/-!
# Expressions that complete

`Parts.CompletesAt` says that the parts complete at an expression and at everything below it, since some
rules look through parentheses and conversions. Each rule has a lemma, and `completesAt_partsTo` puts
them together by the walk from an expression to its parts.
-/

namespace Interop.Binding

open Native (Ast ExprId DeclId TypeId ExprKind TypeKind DeclKind Ref)
open Emit Relation

/-- The emission of parts completes at an expression of the tree and at all expressions below. -/
structure Parts.CompletesAt (parts : Parts) (env : Env) (scope : Scope) (id : ExprId) : Prop where
  inRange : env.HasExpr id
  value_below : ∀ b, ReflTransGen env.ast.ExprStep id b → (parts.value b).Completes env scope
  condition_below : ∀ b, ReflTransGen env.ast.ExprStep id b →
    (parts.condition b).Completes env scope
  address_below : ∀ b, ReflTransGen env.ast.ExprStep id b → (parts.address b).Completes env scope

namespace Parts.CompletesAt

variable {parts : Parts} {env : Env} {scope : Scope} {id : ExprId}

theorem value (h : parts.CompletesAt env scope id) : (parts.value id).Completes env scope :=
  h.value_below id .refl

theorem condition (h : parts.CompletesAt env scope id) : (parts.condition id).Completes env scope :=
  h.condition_below id .refl

theorem address (h : parts.CompletesAt env scope id) : (parts.address id).Completes env scope :=
  h.address_below id .refl

end Parts.CompletesAt

namespace Env.IntactIn

variable {id inner : ExprId} {e : Native.Expr} {record : DeclId} {parts : Parts}

variable {env : Env} {scope : Scope} (h : env.IntactIn scope)

include h

theorem completesAt_of_reaches (hid : parts.CompletesAt env scope id)
    (hreach : ReflTransGen env.ast.ExprStep id inner) : parts.CompletesAt env scope inner where
  inRange := h.tree.inRange_of_reaches hid.inRange hreach
  value_below b hb := hid.value_below b (hreach.trans hb)
  condition_below b hb := hid.condition_below b (hreach.trans hb)
  address_below b hb := hid.address_below b (hreach.trans hb)

theorem completesAt_part (hid : parts.CompletesAt env scope id) (he : env.ast.expr? id = some e)
    (hinner : .expr inner ∈ e.kind.refs) : parts.CompletesAt env scope inner :=
  h.completesAt_of_reaches hid (.single ⟨e, he, hinner⟩)

/-! ## Names and members -/

theorem isInRecord {id : DeclId} (hd : env.ast.decl? id = some d) : (isInRecord d).Completes env scope := by
  unfold Binding.isInRecord
  split
  · rename_i parent hparent
    refine .decl (h.tree.valid.parent hd hparent) fun _ _ => ?_
    split <;> exact .pure
  · exact .pure

theorem memberReference {id : DeclId} (hid : env.HasDecl id) : (memberReference id).Completes env scope := by
  refine .skip (by simp) fun _ => .decl hid fun d hd => ?_
  split
  · rename_i parent hparent
    refine .skip (by simp) fun _ => .ite .pure ?_
    exact (h.qualifiedName (h.tree.valid.parent hd hparent)).returned
  · exact .pure

theorem enumConstant {id : DeclId} (hd : env.ast.decl? id = some d) :
    (enumConstant id d).Completes env scope := by
  refine .skip (by simp) fun _ => ?_
  split
  · exact .pure
  · rename_i enumeration hparent
    have henumeration := h.tree.valid.parent hd hparent
    refine .decl henumeration fun _ _ => .skip (by simp) fun _ => ?_
    refine .ite completes_importMethodsClass.returned (.ite (h.qualifiedName henumeration).returned ?_)
    exact (h.fullTypeName henumeration).skip fun _ => completes_importStatic.returned

theorem localUse (name : String) (htype : env.HasType type) : (localUse name type).Completes env scope :=
  (h.isReference htype).skip fun _ => .ite completes_markPointers.returned .pure

theorem declRefRule (e : Native.Expr) {id : DeclId} (hid : env.HasDecl id) :
    (declRefRule e id).Completes env scope := by
  refine .decl hid fun d hd => .skip (by simp) fun name => ?_
  dsimp only
  split
  · exact h.enumConstant hd
  · exact completes_importMethodsClass.returned
  · refine .skip (by simp) fun _ => .ite completes_importMethodsClass.returned ?_
    refine .skip (h.isInRecord hd) fun _ => .ite (h.memberReference hid) ?_
    exact h.localUse name (h.ofDecl hd (by simp [*]))
  · exact .skip (h.isInRecord hd) fun _ => .ite (h.memberReference hid) .malformed
  · exact h.localUse name (h.ofDecl hd (by simp [*]))
  · exact .pure
  · exact .malformed

theorem memberSteps (hobject : ∀ o, object = some o → env.HasDecl o) (hmember : env.HasDecl member) :
    (memberSteps object member).Completes env scope := by
  refine .symbols (.decl hmember fun d hd => ?_)
  split
  · exact .pure
  · rename_i owner hparent
    have howner := h.tree.valid.parent hd hparent
    have hpath := h.isSome_forwardingPath howner
    refine .lifted (h.isSome_namedOwnerFrom (Nat.le_succ _) howner) fun namedOwner _ => ?_
    dsimp only
    split
    · simp [hpath]
    · rename_i object
      split
      · simp [hpath]
      · have hsteps := h.baseSteps (h.inRange_definition (hobject object rfl)) namedOwner
        simp [hpath, hsteps]

section Members

variable {parts : Parts}

theorem accessedObject (isArrow : Bool) (hbase : parts.CompletesAt env scope base) :
    (accessedObject parts base isArrow).Completes env scope := by
  refine .expr hbase.inRange fun e he => ?_
  have htype : env.HasType e.type := h.tree.valid.typeOfExpr he
  split
  · simp
  · simp
  · refine .ast (.ite (.lifted (h.tree.isSome_pointeeRecord htype) fun record _ => ?_)
      (.lifted (h.tree.isSome_recordOf htype) fun record _ => ?_))
    all_goals
      refine .skip (h.referenceName hbase.inRange) fun name => ?_
      cases name <;> simp [hbase.value]

theorem inRange_accessedObject {record : Option DeclId}
    (hgives : (Binding.accessedObject parts base isArrow).Gives env scope (object, record)) :
    ∀ r, record = some r → env.HasDecl r := by
  simp only [Binding.accessedObject, gives_bind, gives_exprOf] at hgives
  obtain ⟨e, he, hgives⟩ := hgives
  split at hgives
  · simp only [gives_bind, gives_currentRecord, gives_pure, exists_eq_left, Prod.mk.injEq] at hgives
    rw [← hgives.2]
    exact h.record
  · simp only [gives_bind, gives_currentRecord, gives_pure, exists_eq_left, Prod.mk.injEq] at hgives
    rw [← hgives.2]
    exact h.record
  · simp only [gives_bind, gives_ast, exists_eq_left] at hgives
    split at hgives
    · simp only [gives_bind, gives_lift_option] at hgives
      obtain ⟨found, hfound, name, -, hgives⟩ := hgives
      have hrecord : found = record := by cases name <;> simp at hgives <;> grind
      rintro r rfl
      exact h.tree.inRange_pointeeRecord (hrecord ▸ hfound)
    · simp only [gives_bind, gives_lift_option] at hgives
      obtain ⟨found, hfound, name, -, hgives⟩ := hgives
      have hrecord : found = record := by cases name <;> simp at hgives <;> grind
      rintro r rfl
      exact h.tree.valid.ofRecordOf (hrecord ▸ hfound)

theorem memberOf (isArrow : Bool) (hbase : parts.CompletesAt env scope base) (hmember : env.HasDecl member) :
    (memberOf parts base isArrow member).Completes env scope := by
  refine .bind (h.accessedObject isArrow hbase) fun found hobject => ?_
  obtain ⟨object, record⟩ := found
  refine .skip (h.memberSteps (h.inRange_accessedObject hobject) hmember) fun _ => ?_
  exact completes_nameOf.returned

theorem memberRule (e : Native.Expr) (isArrow : Bool) (hbase : parts.CompletesAt env scope base)
    (hmember : env.HasDecl member) : (memberRule parts e base member isArrow).Completes env scope := by
  refine .decl hmember fun d _ => ?_
  split
  · exact h.memberOf isArrow hbase hmember
  · exact h.memberReference hmember
  · exact .unsupported
  · exact .malformed

theorem subscriptRule (hbase : parts.CompletesAt env scope base)
    (hindex : parts.CompletesAt env scope index) : (subscriptRule parts base index).Completes env scope := by
  refine .expr hbase.inRange fun e he => ?_
  refine .skip (h.canonicalKind (h.tree.valid.typeOfExpr he)) fun kind => ?_
  split <;> simp [hbase.value, hindex.value]

theorem addressRule (hid : env.HasExpr id)
    (hbelow : ∀ b, TransGen env.ast.ExprStep id b → parts.CompletesAt env scope b)
    (hvalue : ∀ b, ReflTransGen env.ast.ExprStep id b → (value b).Completes env scope) :
    (addressRule parts value id).Completes env scope := by
  obtain ⟨inner, hinner, hreach⟩ := h.tree.exists_namedObject hid
  have htaken : (do
      markPointers
      return Managed.Expr.unary .addressOf (← value inner)).Completes env scope := by
    simp [hvalue inner hreach]
  refine .ast (.lifted (by rw [hinner]; rfl) fun found hfound => ?_)
  obtain rfl := Option.mem_unique hinner hfound
  refine .expr (h.tree.inRange_of_reaches hid hreach) fun e he => ?_
  dsimp only
  split
  · refine .skip (h.isReferenceDecl (h.ofExpr he (by simp [*]))) fun _ => ?_
    exact .ite completes_nameOf.returned htaken
  · rename_i operand hkind
    exact (hbelow operand (.tail' hreach ⟨e, he, by simp [hkind]⟩)).value
  · exact htaken
  · exact htaken
  · exact .unsupported

/-! ## Calls -/

omit parts in
theorem prototypeOf (htype : env.HasType type) : (prototypeOf type).Completes env scope := by
  refine .ast (.lifted (h.tree.isSome_functionProto htype) fun proto hproto => ?_)
  cases proto with
  | none => exact .pure
  | some proto =>
    refine .lifted (Ast.isSome_type?.mpr (h.tree.inRange_functionProto htype hproto)) fun t _ => ?_
    split <;> exact .pure

omit parts in
theorem inRange_prototypeOf (hgives : (Binding.prototypeOf type).Gives env scope (some proto)) :
    ∀ t ∈ proto.result :: proto.params, env.HasType t := by
  simp only [Binding.prototypeOf, gives_bind, gives_ast, exists_eq_left, gives_lift_option] at hgives
  obtain ⟨found, -, hgives⟩ := hgives
  cases found with
  | none => simp at hgives
  | some found =>
    simp only [gives_bind, gives_lift_option] at hgives
    obtain ⟨t, ht, hgives⟩ := hgives
    split at hgives
    · rename_i p hkind
      obtain rfl : p = proto := by simpa using hgives
      intro type htype
      refine h.tree.valid.ofType ht ?_
      simpa [hkind] using htype
    · simp at hgives

theorem splitArguments (isVariadic : Bool) {excess : Emit Unit} (hexcess : excess.Completes env scope)
    (hargs : ∀ a ∈ args, parts.CompletesAt env scope a) (hparams : ∀ p ∈ params, env.HasType p) :
    (splitArguments parts isVariadic excess params args).Completes env scope := by
  induction args generalizing params with
  | nil => cases params <;> simp [Binding.splitArguments]
  | cons arg args ih =>
    have harg := hargs arg (.head _)
    have hrest := fun (params : List TypeId) (hparams : ∀ p ∈ params, env.HasType p) =>
      ih (fun a ha => hargs a (.tail _ ha)) hparams
    cases params with
    | nil =>
      have hnone := hrest [] (by simp)
      simp only [Binding.splitArguments]
      split <;> simp [hexcess, harg.value, hnone]
    | cons param params =>
      have htail := hrest params fun p hp => hparams p (.tail _ hp)
      refine .skip (h.isReference (hparams param (.head _))) fun isReference => ?_
      split <;> simp [harg.value, harg.address, htail]

theorem callArguments (htype : env.HasType type) (hargs : ∀ a ∈ args, parts.CompletesAt env scope a)
    (location : Location) : (callArguments parts type args location).Completes env scope := by
  refine .bind (h.prototypeOf htype) fun proto hproto => ?_
  have hparams : ∀ p ∈ (proto.map (·.params)).getD [], env.HasType p := by
    cases proto with
    | none => simp
    | some proto => exact fun p hp => h.inRange_prototypeOf hproto p (.tail _ hp)
  refine .skip (h.splitArguments _ .malformed hargs hparams) fun groups => ?_
  obtain ⟨declared, further⟩ := groups
  exact .ite .pure .pure

theorem indirectCall (hcallee : parts.CompletesAt env scope callee)
    (hargs : ∀ a ∈ args, parts.CompletesAt env scope a) (location : Location) :
    (indirectCall parts callee args location).Completes env scope := by
  refine .skip hcallee.value fun _ => .expr hcallee.inRange fun e he => ?_
  refine .skip (h.callArguments (h.tree.valid.typeOfExpr he) hargs location) fun _ => ?_
  exact completes_markPointers.returned

theorem receiverOf (hbase : parts.CompletesAt env scope base) (isArrow : Bool) (location : Location) :
    (receiverOf parts base isArrow location).Completes env scope := by
  refine .expr hbase.inRange fun e he => ?_
  split
  · exact h.thisPointer (h.tree.valid.typeOfExpr he) location
  · exact .ite hbase.value hbase.address

theorem methodCall (hbase : parts.CompletesAt env scope base) {id : DeclId} (hid : env.HasDecl id)
    {method : Native.Method} (htype : env.HasType method.type) (isArrow : Bool)
    (hargs : ∀ a ∈ args, parts.CompletesAt env scope a) (location : Location) :
    (methodCall parts base id method isArrow args location).Completes env scope := by
  refine .skip (h.callArguments htype hargs location) fun _ => ?_
  refine .ite (h.memberReference hid).returned (.ite ?_ (h.memberOf isArrow hbase hid).returned)
  exact (h.receiverOf hbase isArrow location).skip fun _ => (h.memberReference hid).returned

theorem callRule (e : Native.Expr) (hcallee : parts.CompletesAt env scope callee)
    (hargs : ∀ a ∈ args, parts.CompletesAt env scope a) :
    (callRule parts e callee args).Completes env scope := by
  have hindirect := h.indirectCall hcallee hargs e.location
  refine h.usedBy hcallee.inRange fun inner target hreach htarget => ?_
  have hcompletes := h.completesAt_of_reaches hcallee hreach
  split
  · refine .decl (h.ofExpr htarget (by simp [*])) fun d hd => ?_
    split
    · refine .skip (by simp) fun _ => ?_
      exact (h.callArguments (h.ofDecl hd (by simp [*])) hargs e.location).skip fun _ => completes_nameOf.returned
    · refine .skip (h.callArguments (h.ofDecl hd (by simp [*])) hargs e.location) fun _ => ?_
      exact (h.memberReference (h.ofExpr htarget (by simp [*]))).returned
    · exact hindirect
  · refine .decl (h.ofExpr htarget (by simp [*])) fun d hd => ?_
    split
    · exact h.methodCall (h.completesAt_part hcompletes htarget (by simp [*])) (h.ofExpr htarget (by simp [*]))
        (h.ofDecl hd (by simp [*])) _ hargs
        e.location
    · exact hindirect
  · exact hindirect

/-! ## Conversions -/

omit parts in
theorem castNames (htarget : env.HasType target) (hsource : env.HasType source) (location : Location) :
    (castNames target source location).Completes env scope :=
  (h.mapType htarget _ _).skip fun _ => (h.mapType hsource _ _).returned

omit parts in
theorem inRange_type (he : env.ast.expr? id = some e) : env.HasType e.type :=
  h.tree.valid.typeOfExpr he

section Conversions

variable {target source : TypeId} (htarget : env.HasType target) (hsource : env.HasType source)
  {operand : ExprId} (hoperand : parts.CompletesAt env scope operand) (location : Location)

include htarget hoperand

theorem integralCast : (integralCast parts target operand location).Completes env scope := by
  refine .expr hoperand.inRange fun source hsource => ?_
  have hsource := h.inRange_type hsource
  have hcast := fun e => h.castTo htarget e location
  refine .skip (h.isBool hsource) fun _ => .skip (h.isBool htarget) fun _ => ?_
  refine .skip hoperand.value fun e => .ite .pure ?_
  refine .skip (h.enumOf hsource) fun _ => .skip (h.enumOf htarget) fun _ => ?_
  refine .skip (h.literalSign hoperand.inRange) fun sign => ?_
  cases sign with
  | some negative =>
    refine .ite (hcast e) (.skip (h.isUnsigned htarget) fun _ => .ite ?_ .pure)
    exact h.uncheckedCast htarget e location
  | none =>
    refine .ite (.skip (by simp) fun _ => .ite .pure (hcast e)) ?_
    exact .skip (h.castNames htarget hsource location) fun _ => .ite .pure (hcast e)

include hsource in
theorem hierarchyCast : (hierarchyCast parts target source operand location).Completes env scope := by
  refine .skip hoperand.value fun e => .skip (h.isPointer htarget) fun _ => ?_
  refine .ite (h.castTo htarget e location) (.ast (.skip (by simp) fun _ => ?_))
  refine .lifted (h.tree.isSome_recordOf hsource) fun derived hderived => ?_
  refine .lifted (h.tree.isSome_recordOf htarget) fun base hbase => ?_
  split
  · rename_i derived base
    refine .ite .unsupported ?_
    refine .skip (h.baseSteps (h.tree.valid.ofRecordOf hderived) base) fun hops => ?_
    cases hops with
    | some hops => exact .pure
    | none => exact .unsupported
  · exact .unsupported

theorem decay : (decay parts target operand location).Completes env scope := by
  refine .bind (h.ignoreParens hoperand.inRange) fun inner hinner => ?_
  have hinner := h.completesAt_of_reaches hoperand (h.reaches_of_ignoreParens hoperand.inRange hinner)
  refine .expr hinner.inRange fun e _ => ?_
  split
  · simp [hinner.value, h.mapType htarget]
  · exact hoperand.value

omit htarget in
include hsource in
theorem toFloating : (toFloating parts source operand).Completes env scope :=
  hoperand.value.skip fun _ => (h.isBool hsource).skip fun _ => .ite .pure .pure

include hsource in
theorem dynamicCast : (dynamicCast parts target source operand location).Completes env scope := by
  refine .ast (.skip (by simp) fun symbols => .skip (h.isPointer htarget) fun _ => ?_)
  refine .lifted (h.tree.isSome_pointeeRecord htarget) fun derived hderived => ?_
  refine .lifted (h.tree.isSome_pointeeRecord hsource) fun base _ => ?_
  -- Whatever the records say about the cast, the same two outcomes are left.
  have hfinish : ∀ (isDowncast : Bool) (reason : String),
      (if isDowncast = true then do Binding.castTo target (← parts.value operand) location
        else unsupported "dynamic_cast" location reason).Completes env scope := fun _ _ =>
    .ite (.skip hoperand.value fun value => h.castTo htarget value location) .unsupported
  split
  · split
    · refine .skip (h.baseSteps (h.tree.inRange_pointeeRecord hderived) _) fun _ => ?_
      exact Completes.pure.skip fun isDowncast => hfinish isDowncast _
    · exact Completes.pure.skip fun isDowncast => hfinish isDowncast _
  · exact Completes.pure.skip fun isDowncast => hfinish isDowncast _

include hsource in
theorem writtenCast : (writtenCast parts target source operand location).Completes env scope := by
  have hcast := fun e => h.castTo htarget e location
  refine .skip (h.isBool hsource) fun _ => .skip (h.isBool htarget) fun _ => .ite ?_ ?_
  · refine .skip hoperand.value fun _ => .skip (h.mapType htarget _ _) fun _ => ?_
    exact .ite .pure (hcast _)
  · refine .skip (h.isUnsigned htarget) fun _ => .skip (h.literalSign hoperand.inRange) fun _ => ?_
    refine .ite (.skip hoperand.value fun value => ?_) (.skip hoperand.value hcast)
    exact h.uncheckedCast htarget value location

end Conversions

theorem implicitCastRule (htarget : env.HasType e.type) (kind : Native.CastKind)
    (hoperand : parts.CompletesAt env scope operand) :
    (implicitCastRule parts e kind operand).Completes env scope := by
  refine .expr hoperand.inRange fun source hsource => ?_
  have hsource := h.inRange_type hsource
  have hcast := fun value => h.castTo htarget value e.location
  have hnames := h.castNames htarget hsource e.location
  cases kind with
  | lvalueToRValue | noOp => exact hoperand.value
  | arrayToPointerDecay => exact h.decay htarget hoperand e.location
  | functionToPointerDecay => simp [hoperand.value]
  | integralCast => exact h.integralCast htarget hoperand e.location
  | integralToBoolean | floatingToBoolean | pointerToBoolean => exact hoperand.condition
  | integralToFloating => exact h.toFloating hsource hoperand
  | floatingToIntegral | pointerToIntegral | integralToPointer => exact .skip hoperand.value hcast
  | floatingCast =>
    exact .skip hoperand.value fun value => .skip hnames fun _ => .ite (hcast value) .pure
  | bitCast =>
    exact .skip hoperand.value fun value => .skip hnames fun _ => .ite .pure (hcast value)
  | nullToPointer => exact .pure
  | derivedToBase | baseToDerived => exact h.hierarchyCast htarget hsource hoperand e.location
  | dynamic | toVoid | other => exact .unsupported

theorem explicitCastRule (htarget : env.HasType e.type) (style : Native.CastStyle) (kind : Native.CastKind)
    (hoperand : parts.CompletesAt env scope operand) :
    (explicitCastRule parts e style kind operand).Completes env scope := by
  refine .expr hoperand.inRange fun source hsource => ?_
  have hsource := h.inRange_type hsource
  dsimp only
  split
  · exact hoperand.value
  · exact h.dynamicCast htarget hsource hoperand e.location
  · exact .unsupported
  · exact hoperand.condition
  · exact hoperand.condition
  · exact hoperand.condition
  · exact h.writtenCast htarget hsource hoperand e.location

/-! ## Initializer lists -/

omit h parts in
theorem initializerName (hmember : env.HasDecl member) : (initializerName member).Completes env scope := by
  refine .decl hmember fun d _ => ?_
  split
  · exact completes_nameOf.returned
  · exact .ite completes_symbols.returned .pure
  · exact .pure

omit h parts in
theorem takesPlace (hmember : env.HasDecl member) : (takesPlace member).Completes env scope := by
  refine .decl hmember fun d _ => ?_
  split <;> exact .pure

omit h parts in
theorem initializerNames (isUnion : Bool) (hmembers : ∀ m ∈ members, env.HasDecl m) :
    (initializerNames isUnion members).Completes env scope := by
  induction members with
  | nil => exact .pure
  | cons member rest ih =>
    have hmember := hmembers member (.head _)
    refine .skip (initializerName hmember) fun _ => .skip (takesPlace hmember) fun _ => ?_
    exact .ite .pure (ih fun m hm => hmembers m (.tail _ hm)).returned

theorem initializerNamesOf (hrecord : env.HasDecl record) :
    (initializerNamesOf record).Completes env scope := by
  refine .decl hrecord fun d hd => ?_
  split
  · exact initializerNames _ fun m hm => h.ofDecl hd (by simp [*])
  · exact .pure

omit h in
theorem initializedFields (hfields : ∀ f ∈ fields, parts.CompletesAt env scope f.2) :
    (initializedFields parts fields).Completes env scope := by
  induction fields with
  | nil => exact .pure
  | cons field rest ih =>
    obtain ⟨name, element⟩ := field
    have helement := hfields (name, element) (.head _)
    have hrest := ih fun f hf => hfields f (.tail _ hf)
    refine .expr helement.inRange fun e _ => ?_
    split
    · exact hrest
    · exact .skip helement.value fun _ => hrest.returned

theorem arrayInit (helement : env.HasType element) (size : Nat)
    (helements : ∀ e ∈ elements, parts.CompletesAt env scope e) (location : Location) :
    (arrayInit parts element size elements location).Completes env scope := by
  refine .skip (h.mapType helement _ _) fun _ => .ite .malformed (.ite .pure ?_)
  exact (completes_forEach fun e he => (helements e he).value).returned

theorem recordInit (htype : env.HasType type) (hrecord : env.HasDecl record)
    (helements : ∀ e ∈ elements, parts.CompletesAt env scope e) (location : Location) :
    (recordInit parts type record elements location).Completes env scope := by
  refine .skip (h.mapType htype _ _) fun _ => .ite .pure (.symbols ?_)
  refine .skip (h.initializerNamesOf (h.inRange_definition hrecord)) fun names => ?_
  refine .ite .malformed (initializedFields fun f hf => ?_).returned
  exact helements f.2 (List.of_mem_zip hf).2

theorem initListRule (htype : env.HasType e.type)
    (helements : ∀ e ∈ elements, parts.CompletesAt env scope e) :
    (initListRule parts e elements).Completes env scope := by
  refine .bind (h.canonicalKind htype) fun kind hkind => ?_
  have hrefs := fun r hr => h.ofKind (gives_canonicalKind.mp hkind) (r := r) hr
  split
  · exact h.arrayInit (hrefs _ (by simp)) _ helements e.location
  · exact h.recordInit htype (hrefs _ (by simp)) helements e.location
  · split
    · exact .pure
    · exact (helements _ (.head _)).value
    · exact .malformed

/-! ## Operators -/

omit h parts in
theorem promotedOperand (hid : env.HasExpr id) : (promotedOperand id).Completes env scope := by
  refine .expr hid fun e _ => ?_
  split <;> exact .pure

omit h parts in
theorem step_of_promotedOperand (hgives : (Binding.promotedOperand id).Gives env scope (some operand)) :
    env.ast.ExprStep id operand := by
  obtain ⟨e, he, hkind⟩ := exists_of_promotedOperand hgives
  exact ⟨e, he, by simp [hkind]⟩

theorem enumOperands (op : BinaryOp) (hlhs : parts.CompletesAt env scope lhs)
    (hrhs : parts.CompletesAt env scope rhs) : (enumOperands op lhs rhs).Completes env scope := by
  refine .ite .pure ?_
  refine .bind (promotedOperand hlhs.inRange) fun left hleft => ?_
  refine .bind (promotedOperand hrhs.inRange) fun right hright => ?_
  split
  · have hl := h.completesAt_of_reaches hlhs (.single (step_of_promotedOperand hleft))
    have hr := h.completesAt_of_reaches hrhs (.single (step_of_promotedOperand hright))
    refine .expr hl.inRange fun el hel => .skip (h.enumOf (h.inRange_type hel)) fun _ => ?_
    refine .expr hr.inRange fun er her => .skip (h.enumOf (h.inRange_type her)) fun _ => ?_
    refine .skip (by simp) fun _ => ?_
    split
    · exact .ite .pure .pure
    · exact .pure
  · exact .pure

theorem binaryRaw (op : BinaryOp) (hlhs : parts.CompletesAt env scope lhs)
    (hrhs : parts.CompletesAt env scope rhs) : (binaryRaw parts op lhs rhs).Completes env scope := by
  refine .ite (.skip hlhs.condition fun _ => hrhs.condition.returned) ?_
  refine .bind (h.enumOperands op hlhs hrhs) fun operands hoperands => ?_
  cases operands with
  | none => exact .skip hlhs.value fun _ => hrhs.value.returned
  | some operands =>
    obtain ⟨hleft, hright⟩ := promoted_of_enumOperands hoperands
    exact .skip (hlhs.value_below _ (.single (step_of_promotedOperand hleft))) fun _ =>
      (hrhs.value_below _ (.single (step_of_promotedOperand hright))).returned

theorem binaryRule (htype : env.HasType e.type) (op : BinaryOp) (hlhs : parts.CompletesAt env scope lhs)
    (hrhs : parts.CompletesAt env scope rhs) : (binaryRule parts e op lhs rhs).Completes env scope :=
  .ite .unsupported ((h.binaryRaw op hlhs hrhs).skip fun raw =>
    .ite (h.truthAs htype raw) .pure)

theorem unaryRule (htype : env.HasType e.type) (op : UnaryOp)
    (hoperand : parts.CompletesAt env scope operand) :
    (unaryRule parts e op operand).Completes env scope := by
  unfold Binding.unaryRule
  split
  · exact .skip hoperand.condition.returned fun truth => h.truthAs htype truth
  · refine .skip (h.referenceName hoperand.inRange) fun name => ?_
    cases name with
    | some name => exact .pure
    | none => simp [hoperand.value]
  · simp [hoperand.value]

theorem comparedRule (hid : env.HasExpr id) (hvalue : (value id).Completes env scope) :
    (comparedRule value id).Completes env scope := by
  refine .expr hid fun e he => .skip hvalue fun _ => .skip (h.isBool (h.inRange_type he)) fun _ => ?_
  refine .ite .pure (.skip (h.isPointer (h.inRange_type he)) fun _ => ?_)
  exact .ite .pure .pure

theorem conditionRule (hid : env.HasExpr id)
    (hbelow : ∀ b, TransGen env.ast.ExprStep id b → parts.CompletesAt env scope b)
    (hvalue : (value id).Completes env scope) : (conditionRule parts value id).Completes env scope := by
  have hcompared := h.comparedRule hid hvalue
  refine h.innerOf hid fun inner e hreach he => ?_
  have hpart (b : ExprId) (hb : .expr b ∈ e.kind.refs) :
      parts.CompletesAt env scope b :=
    hbelow b (.tail' hreach ⟨e, he, hb⟩)
  split
  · rename_i op lhs rhs hkind
    exact .ite (h.binaryRaw op (hpart lhs (by simp [*]))
      (hpart rhs (by simp [*]))) hcompared
  · rename_i operand hkind
    exact (hpart operand (by simp [*])).condition.returned
  · exact hcompared

/-! ## All kinds -/

theorem valueRule (hid : env.HasExpr id)
    (hbelow : ∀ b, TransGen env.ast.ExprStep id b → parts.CompletesAt env scope b) :
    (valueRule parts id).Completes env scope := by
  refine .expr hid fun e he => ?_
  have htype := h.inRange_type he
  have hpart (b : ExprId) (hb : .expr b ∈ e.kind.refs) :
      parts.CompletesAt env scope b :=
    hbelow b (.single ⟨e, he, hb⟩)
  cases hkind : e.kind with
  | integer spelling =>
    show (integerRule e spelling).Completes env scope
    unfold integerRule
    split
    · exact .malformed
    · exact (h.mapType htype _ _).returned
  | floating spelling => exact (h.mapType htype _ _).returned
  | character value => exact (h.mapType htype _ _).skip fun _ => .ite .pure .pure
  | string value charWidth => exact .ite .pure .unsupported
  | bool | nullPtr | valueInit => exact .pure
  | declRef target => exact h.declRefRule e (h.ofExpr he (by simp [*]))
  | paren inner => simp [(hpart inner (by simp [*])).value]
  | unary op operand => exact h.unaryRule htype op (hpart operand (by simp [*]))
  | binary op lhs rhs =>
    exact h.binaryRule htype op (hpart lhs (by simp [*]))
      (hpart rhs (by simp [*]))
  | conditional cond thenExpr elseExpr =>
    simp [conditionalRule, (hpart cond (by simp [*])).condition,
      (hpart thenExpr (by simp [*])).value,
      (hpart elseExpr (by simp [*])).value]
  | call callee args =>
    exact h.callRule e (hpart callee (by simp [*])) fun a ha =>
      hpart a (by simp [*])
  | member base member isArrow =>
    exact h.memberRule e isArrow (hpart base (by simp [*]))
      (h.ofExpr he (by simp [*]))
  | subscript base index =>
    exact h.subscriptRule (hpart base (by simp [*]))
      (hpart index (by simp [*]))
  | implicitCast kind operand =>
    exact h.implicitCastRule htype kind (hpart operand (by simp [*]))
  | explicitCast style kind operand =>
    exact h.explicitCastRule htype style kind (hpart operand (by simp [*]))
  | initList elements =>
    exact h.initListRule htype fun a ha => hpart a (by simp [*])
  | thisPointer implicit => exact h.thisPointer htype e.location
  | sizeOf arg =>
    have harg : env.HasType arg := h.ofExpr he (by simp [*])
    refine .skip (h.mapType harg _ _) fun _ => .skip (by simp) fun _ => ?_
    exact (h.mapType htype _ _).skip fun _ => .ite .pure .pure
  | other kind => exact .unsupported

end Members

theorem completesAt_partsTo (hdepth : env.ast.exprs.size ≤ depth) (hid : env.HasExpr id) :
    (partsTo depth).CompletesAt env scope id := by
  have hmain : ∀ id, env.HasExpr id → ((partsTo depth).value id).Completes env scope ∧
      ((partsTo depth).condition id).Completes env scope ∧
      ((partsTo depth).address id).Completes env scope := by
    intro id hid
    refine h.tree.expr_induction ?_ hdepth hid
    intro depth id hid ih
    have hbelow : ∀ b, TransGen env.ast.ExprStep id b → (partsTo depth).CompletesAt env scope b := by
      intro b hb
      obtain ⟨_, -, e, he, hlast⟩ := TransGen.tail'_iff.mp hb
      exact {
        inRange := h.ofExpr he hlast
        value_below := fun c hc => (ih c (hb.trans_left hc)).1
        condition_below := fun c hc => (ih c (hb.trans_left hc)).2.1
        address_below := fun c hc => (ih c (hb.trans_left hc)).2.2 }
    have hvalue : ∀ b, ReflTransGen env.ast.ExprStep id b →
        (Binding.valueRule (partsTo depth) b).Completes env scope := fun b hb =>
      h.valueRule (h.tree.inRange_of_reaches hid hb) fun c hc => hbelow c (.trans_right hb hc)
    exact ⟨hvalue id .refl, h.conditionRule hid hbelow (hvalue id .refl),
      h.addressRule hid hbelow hvalue⟩
  exact {
    inRange := hid
    value_below := fun b hb => (hmain b (h.tree.inRange_of_reaches hid hb)).1
    condition_below := fun b hb => (hmain b (h.tree.inRange_of_reaches hid hb)).2.1
    address_below := fun b hb => (hmain b (h.tree.inRange_of_reaches hid hb)).2.2 }

theorem emitValue (hid : env.HasExpr id) : (emitValue id).Completes env scope := by
  simp [Binding.emitValue, allParts, (h.completesAt_partsTo (Nat.le_succ _) hid).value]

theorem emitCondition (hid : env.HasExpr id) : (emitCondition id).Completes env scope := by
  simp [Binding.emitCondition, allParts, (h.completesAt_partsTo (Nat.le_succ _) hid).condition]

theorem emitAddress (hid : env.HasExpr id) : (emitAddress id).Completes env scope := by
  simp [Binding.emitAddress, allParts, (h.completesAt_partsTo (Nat.le_succ _) hid).address]

end Env.IntactIn

end Interop.Binding

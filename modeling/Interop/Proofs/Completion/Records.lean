import Interop.Proofs.BitFieldPlacement
import Interop.Proofs.Completion.Declarations

/-!
# Records that complete

A record leads inwards to the records in its body, through the anonymous ones for the members that it
forwards, and up to the definitions of its bases. The types in a base are not taken over, so `emitMembers`
needs the emission of nested types only for the record itself.
-/

namespace Interop.Binding

open Native (Ast DeclId TypeId TypeKind DeclKind Ref Decl)
open Emit
open Managed (Member)

variable {env : Env} {scope : Scope} {id : DeclId}

theorem completes_collect {f : α → Emit RecordItems} {as : List α}
    (h : ∀ a ∈ as, (f a).Completes env scope) : (collect f as).Completes env scope := by
  induction as with
  | nil => exact .pure
  | cons a as ih =>
    have hrest := ih fun b hb => h b (.tail _ hb)
    simp [collect, h a (.head _), hrest]

@[simp] theorem completes_reportLayout : (reportLayout message location).Completes env scope :=
  completes_report

theorem memberStep_of_recordMembers {ast : Ast} (hmembers : ast.recordMembers? id = some members) :
    ∀ member ∈ members, ast.MemberStep id member := by
  simp only [Ast.recordMembers?, bind, Option.bind_eq_some_iff] at hmembers
  obtain ⟨d, hd, hmembers⟩ := hmembers
  intro member hmember
  split at hmembers
  · rename_i r hkind
    cases hmembers
    exact ⟨d, r, hd, hkind, hmember⟩
  · cases hmembers
    cases hmember

namespace Env.IntactIn

variable {id anonymous record : DeclId} {r : Native.Record} {f : Native.Field} {fuel : Nat}

variable {env : Env} {scope : Scope} (h : env.IntactIn scope)

include h

/-! ## Bit fields -/

theorem bitStorage (htype : env.HasType type) (location : Location) :
    (bitStorage type location).Completes env scope := by
  -- An enumeration and any other type lead to the same steps, with another type.
  have hstored : ∀ stored, env.HasType stored →
      (do
        let mapped ← Binding.mapType stored .field location
        if mapped.name = "bool" then return "byte"
        else if mapped.name = "char" then
          unsupported "bitfield" location "character bitfields are not supported"
        else if (Managed.IntegerType.ofName? mapped.name).isSome then return mapped.name
        else
          unsupported "bitfield" location
            ("bitfield of type `" ++ mapped.name ++ "` is not supported") : Emit String).Completes
        env scope := by
    intro stored hstored
    refine completes_bind.mpr ⟨h.mapType hstored _ _, fun mapped _ => ?_⟩
    split_ifs <;> simp
  simp only [Binding.bitStorage, completes_bind, completes_ast, gives_ast, true_and, forall_eq,
    gives_canonicalKind]
  refine ⟨h.canonicalKind htype, fun kind hkind => ?_⟩
  split
  · rename_i id
    have hid : env.HasDecl id :=
      h.ofKind hkind (by simp)
    simp only [completes_bind, completes_lift_option, gives_lift_option]
    refine ⟨Ast.isSome_decl?.mpr hid, fun d hd => ?_⟩
    split
    · rename_i e hkind
      exact hstored _ (h.ofDecl hd (by simp [hkind]))
    · exact hstored type htype
  · exact hstored type htype

theorem bitItemOf (isUnion : Bool) (hid : env.HasDecl id) : (bitItemOf isUnion id).Completes env scope := by
  simp only [Binding.bitItemOf, completes_bind, completes_decl, gives_decl]
  refine ⟨hid, fun d hd => ?_⟩
  split
  · rename_i type width _ hkind
    split
    · exact .pure
    · have htype : env.HasType type :=
        h.ofDecl hd (by simp [hkind])
      simp only [completes_bind]
      refine ⟨h.bitStorage htype _, fun _ _ => ?_⟩
      split <;> split <;> simp
  · exact .pure
  · exact .pure
  · exact .pure

theorem bitUnitsOf (isUnion : Bool) (hmembers : ∀ id ∈ members, env.HasDecl id) :
    (bitUnitsOf isUnion members).Completes env scope := by
  simp [Binding.bitUnitsOf, completes_forEach fun id hid => h.bitItemOf isUnion (hmembers id hid)]

theorem bitProperty (place : String) (u : BitUnit) {slot : BitSlot} (hslot : env.HasDecl slot.field) :
    (bitProperty place u slot).Completes env scope := by
  simp only [Binding.bitProperty, completes_bind, completes_decl, gives_decl]
  refine ⟨hslot, fun d hd => ?_⟩
  split
  · rename_i type declared _ hkind
    have htype : env.HasType type :=
      h.ofDecl hd (by simp [hkind])
    simp [h.mapType htype, completes_obsoleteAttribute hslot]
  · exact .malformed

theorem emitBitUnit (id : DeclId) (hunits : ∀ u ∈ units, u.Placed env scope) (isUnion : Bool)
    (base : Option String) : (emitBitUnit id units isUnion base).Completes env scope := by
  simp only [Binding.emitBitUnit]
  split
  · exact .pure
  · rename_i u position hfound
    have hu := hunits u (List.fst_mem_of_mem_zipIdx (List.mem_of_find?_eq_some hfound))
    simp only [completes_bind]
    refine ⟨completes_forEach fun slot hslot => h.bitProperty _ u ?_, fun _ _ => .pure⟩
    obtain ⟨f, hf, hfield, -⟩ := hu.fields slot hslot
    obtain ⟨d, _, _, hd, -⟩ := hf.declared
    exact hfield ▸ Ast.inRange_of_decl? hd

/-! ## Fields -/

theorem arrayShape (htype : env.HasType type) (location : Location) :
    (arrayShape type location).Completes env scope := by
  simp only [Binding.arrayShape, completes_bind, gives_canonicalKind]
  refine ⟨h.canonicalKind htype, fun kind hkind => ?_⟩
  split
  · exact .pure
  · rename_i element size hshape
    have helement : env.HasType element := by
      refine h.ofKind hkind ?_
      split at hshape <;> cases hshape <;> simp
    simp only [completes_bind]
    refine ⟨h.canonicalKind helement, fun _ _ => ?_⟩
    split <;> simp

theorem inRange_arrayShape
    (hgives : (Binding.arrayShape type location).Gives env scope (some (element, size))) :
    env.HasType element := by
  simp only [Binding.arrayShape, gives_bind, gives_canonicalKind] at hgives
  obtain ⟨kind, hkind, hgives⟩ := hgives
  refine h.ofKind hkind ?_
  split at hgives
  · simp at hgives
  · rename_i found _ hshape
    simp only [gives_bind] at hgives
    obtain ⟨_, -, hgives⟩ := hgives
    have hfound : found = element := by
      split at hgives <;> simp_all
    subst hfound
    split at hshape <;> cases hshape <;> simp

omit h in
theorem unionOffset (d : Decl) (f : Native.Field) : (unionOffset d f).Completes env scope := by
  simp only [Binding.unionOffset]
  split
  · split <;> simp
  · exact .pure

theorem fieldObsoleteAttribute (hid : env.HasDecl id) (htype : env.HasType type) :
    (fieldObsoleteAttribute id type).Completes env scope := by
  simp only [Binding.fieldObsoleteAttribute, completes_bind]
  refine ⟨completes_obsoleteAttribute hid, fun _ _ => ?_⟩
  split
  · exact .pure
  · exact h.typedefObsoleteAttribute htype

theorem arrayField (hid : env.HasDecl id) (d : Decl) (htype : env.HasType type)
    (helement : env.HasType element) (size : Nat) (offset : List Managed.Attribute) :
    (arrayField id d type element size offset).Completes env scope := by
  have hspelling : (nativeSpelling type).Completes env scope := by
    simp [nativeSpelling, h.tree.isSome_nativeSpelling env.symbols htype]
  simp only [Binding.arrayField, completes_bind]
  refine ⟨h.mapType helement _ _, fun _ _ => ⟨hspelling, fun _ _ => ?_⟩⟩
  refine ⟨h.fieldObsoleteAttribute hid htype, fun _ _ => ⟨completes_nameOf, fun _ _ => ?_⟩⟩
  split <;> simp

theorem fieldWithOffset (hid : env.HasDecl id) (d : Decl) (htype : env.HasType f.type)
    (offset : List Managed.Attribute) :
    (do
      match ← Binding.arrayShape f.type d.location with
      | some (element, size) => Binding.arrayField id d f.type element size offset
      | none =>
        let mapped ← Binding.mapType f.type .field d.location
        let obsolete ← Binding.fieldObsoleteAttribute id f.type
        let attrs := offset ++ mapped.nativeAttribute ++ obsolete.toList
        return { fields := [.field attrs .plain mapped.type (← nameOf id) none] }
      : Emit RecordItems).Completes env scope := by
  refine completes_bind.mpr ⟨h.arrayShape htype _, fun shape hshape => ?_⟩
  cases shape with
  | none => simp [h.mapType htype, h.fieldObsoleteAttribute hid htype]
  | some shape => exact h.arrayField hid d htype (h.inRange_arrayShape hshape) _ _

theorem emitField (hid : env.HasDecl id) (d : Decl) (htype : env.HasType f.type) (isUnion : Bool) :
    (emitField id d f isUnion).Completes env scope := by
  simp only [Binding.emitField]
  split
  · refine completes_bind.mpr ⟨unionOffset d f, fun offset _ => ?_⟩
    exact h.fieldWithOffset hid d htype [offset]
  · exact h.fieldWithOffset hid d htype []

/-! ## Anonymous records -/

theorem forwardBits (id : DeclId) (d : Decl) (htype : env.HasType type) (path : Managed.Expr) :
    (forwardBits id d type path).Completes env scope := by
  simp [Binding.forwardBits, h.mapType htype]

theorem forwardField (hanonymous : env.HasDecl anonymous) (id : DeclId) (d : Decl) (htype : env.HasType type)
    (path : Managed.Expr) : (forwardField anonymous id d type path).Completes env scope := by
  simp only [Binding.forwardField, completes_bind]
  refine ⟨completes_nameOf, fun _ _ => ⟨completes_importNamespace, fun _ _ => ?_⟩⟩
  refine ⟨h.arrayShape htype _, fun shape hshape => ?_⟩
  cases shape with
  | none => simp [h.mapType htype]
  | some shape =>
    refine completes_bind.mpr ⟨h.mapType (h.inRange_arrayShape hshape) _ _, fun _ _ => ?_⟩
    split <;> simp [h.qualifiedName hanonymous]

theorem forwardMember {inner : DeclId → Managed.Expr → Emit (List Member)}
    (hanonymous : env.HasDecl anonymous) (path : Managed.Expr) (hid : env.HasDecl id)
    (hinner : ∀ path, (inner id path).Completes env scope) :
    (forwardMember inner anonymous path id).Completes env scope := by
  simp only [Binding.forwardMember, completes_bind, completes_decl, gives_decl]
  refine ⟨hid, fun d hd => ?_⟩
  split
  · rename_i type _ _ hkind
    have htype : env.HasType type :=
      h.ofDecl hd (by simp [hkind])
    simp [h.forwardBits id d htype path]
  · rename_i f _ hkind
    have htype : env.HasType f.type :=
      h.ofDecl hd (by simp [hkind])
    simp [h.forwardField hanonymous id d htype path]
  · refine completes_bind.mpr ⟨completes_symbols, fun _ _ => ?_⟩
    split
    · exact hinner _
    · exact .pure
  · exact .pure

theorem forwardFrom (hfuel : env.ast.decls.size ≤ fuel) (hanonymous : env.HasDecl anonymous)
    (path : Managed.Expr) : (forwardFrom fuel anonymous path).Completes env scope := by
  refine decl_induction (P := fun fuel id => ∀ path, (Binding.forwardFrom fuel id path).Completes env
    scope) h.tree.acyclic.members (inRange_of_memberStep h.tree.valid) ?_ hfuel hanonymous path
  intro fuel id hid ih path
  simp only [Binding.forwardFrom, completes_bind, completes_ast, gives_ast, true_and, forall_eq,
    completes_lift_option, gives_lift_option]
  refine ⟨isSome_recordMembers hid, fun members hmembers => ⟨?_, fun _ _ => .pure⟩⟩
  refine completes_forEach fun member hmember => ?_
  have hstep := memberStep_of_recordMembers hmembers member hmember
  exact h.forwardMember hid path (inRange_of_memberStep h.tree.valid _ _ hstep) (ih member hstep)

theorem forwardingAccessors (hanonymous : env.HasDecl anonymous) (field : String) :
    (forwardingAccessors anonymous field).Completes env scope := by
  simp [Binding.forwardingAccessors, h.forwardFrom (Nat.le_succ _) hanonymous]

theorem emitAnonymous (hid : env.HasDecl id) (d : Decl) (isUnion : Bool)
    (hnested : isInherited = false → (nested id).Completes env scope) :
    (emitAnonymous nested id d isUnion isInherited).Completes env scope := by
  simp only [Binding.emitAnonymous, completes_bind, completes_symbols, gives_symbols, true_and,
    forall_eq]
  split
  · exact .malformed
  · refine completes_bind.mpr ⟨h.qualifiedName hid, fun _ _ => ?_⟩
    cases isInherited with
    | true => simp [h.forwardingAccessors hid]
    | false => simp [h.forwardingAccessors hid, hnested rfl]

/-! ## Members -/

omit h in
theorem nestedType (d : Decl) {m : Emit Member} (hm : m.Completes env scope) :
    (nestedType d m).Completes env scope := by
  simp only [Binding.nestedType, completes_bind]
  refine ⟨completes_skippableMember hm, fun _ _ => ?_⟩
  split
  · exact .pure
  · split <;> exact .pure

theorem emitOwnMember (record : DeclId) (hid : env.HasDecl id) (d : Decl)
    (hnested : (nested id).Completes env scope) :
    (emitOwnMember nested record id d).Completes env scope := by
  simp only [Binding.emitOwnMember]
  split
  · refine completes_bind.mpr ⟨completes_symbols, fun _ _ => ?_⟩
    split
    · exact .pure
    · exact nestedType d hnested
  · exact nestedType d (h.emitEnum hid)
  · split
    · exact .pure
    · simp [completes_skippableMember (h.emitMethod record hid)]
  · simp [completes_skippableMember (h.emitGlobal hid)]
  · simp
  · simp
  · simp
  · exact .pure

theorem emitMember (record : DeclId) (isUnion : Bool) (hunits : ∀ u ∈ units, u.Placed env scope)
    (hid : env.HasDecl id) (hnested : isInherited = false → (nested id).Completes env scope) :
    (emitMember nested record isUnion isInherited units id).Completes env scope := by
  simp only [Binding.emitMember, completes_bind, completes_decl, gives_decl]
  refine ⟨hid, fun d hd => ?_⟩
  split
  · cases isInherited <;> simp [h.emitBitUnit id hunits]
  · rename_i f _ hkind
    exact h.emitField hid d (h.ofDecl hd (by simp [hkind])) isUnion
  · exact h.emitAnonymous hid d isUnion hnested
  · cases isInherited with
    | true => exact .pure
    | false => exact h.emitOwnMember record hid d (hnested rfl)

theorem emitMembers (hrecord : env.HasDecl record) (isUnion : Bool)
    (hnested : isInherited = false → ∀ member, env.ast.MemberStep record member →
      (nested member).Completes env scope) :
    (emitMembers nested record isUnion isInherited).Completes env scope := by
  simp only [Binding.emitMembers, completes_bind, completes_ast, gives_ast, true_and, forall_eq,
    completes_lift_option, gives_lift_option]
  refine ⟨isSome_recordMembers hrecord, fun members hmembers => ?_⟩
  have hsteps := memberStep_of_recordMembers hmembers
  have hrange : ∀ id ∈ members, env.HasDecl id := fun id hid =>
    inRange_of_memberStep h.tree.valid _ _ (hsteps id hid)
  refine ⟨h.bitUnitsOf isUnion hrange, fun units hunits => completes_collect fun id hid => ?_⟩
  exact h.emitMember record isUnion (bitUnits_placed hunits) (hrange id hid)
    fun hown => hnested hown id (hsteps id hid)

/-! ## Bases -/

theorem inRange_bases (hd : env.ast.decl? id = some d) (hkind : d.kind = .record r) :
    ∀ b ∈ r.bases, env.HasType b.type := by
  intro b hb
  refine h.ofDecl hd ?_
  simp only [hkind, DeclKind.refs, List.mem_append, List.mem_map]
  exact .inl ⟨b, hb, rfl⟩

theorem baseRecords (hbases : ∀ b ∈ bases, env.HasType b.type) :
    (baseRecords bases).Completes env scope := by
  simp only [Binding.baseRecords, completes_bind, completes_ast, gives_ast, true_and, forall_eq]
  refine ⟨completes_forEach fun b hb => ?_, fun _ _ => .pure⟩
  exact completes_lift_option.mpr (h.tree.isSome_recordOf (hbases b hb))

omit h in
theorem exists_of_mem_baseRecords (hgives : (Binding.baseRecords bases).Gives env scope records) :
    ∀ id ∈ records, ∃ b ∈ bases, env.ast.recordOf? b.type = some (some id) := by
  simp only [Binding.baseRecords, gives_bind, gives_ast, exists_eq_left, gives_pure] at hgives
  obtain ⟨found, hfound, rfl⟩ := hgives
  intro id hid
  obtain ⟨o, ho, hsome⟩ := List.mem_filterMap.mp hid
  obtain rfl : o = some id := hsome
  obtain ⟨b, hb, hgives⟩ := hfound.exists_of_mem_forEach ho
  exact ⟨b, hb, gives_lift_option.mp hgives⟩

theorem flattenFrom (nested : DeclId → Emit Member) (hfuel : env.ast.decls.size ≤ fuel)
    (hbase : env.HasDecl base) : (flattenFrom nested fuel base).Completes env scope := by
  -- A base is met by any of its declarations, but the chain leads through the definitions.
  refine decl_induction (P := fun fuel target => ∀ base, env.symbols.definition base = target →
    (Binding.flattenFrom nested fuel base).Completes env scope) h.tree.acyclic.bases
    (inRange_of_baseStep h.tree.valid) ?_ hfuel (h.inRange_definition hbase) base rfl
  rintro fuel _ htarget ih base rfl
  have hmembers : (Binding.emitMembers nested (env.symbols.definition base) false true).Completes env
      scope := h.emitMembers htarget false nofun
  simp only [Binding.flattenFrom, completes_bind, completes_symbols, gives_symbols, true_and,
    forall_eq, completes_decl, gives_decl]
  refine ⟨htarget, fun d hd => ?_⟩
  split
  · rename_i r hkind
    simp only [completes_bind]
    refine ⟨h.baseRecords (h.inRange_bases hd hkind), fun records hrecords => ?_⟩
    refine ⟨completes_collect fun next hnext => ?_, fun _ _ => by simp [hmembers]⟩
    obtain ⟨b, hb, hrecord⟩ := exists_of_mem_baseRecords hrecords next hnext
    exact ih _ ⟨d, r, b, next, hd, hkind, hb, hrecord, h.definition next⟩ next rfl
  · simp [hmembers]

theorem emitBases (nested : DeclId → Emit Member) (hd : env.ast.decl? record = some d)
    (hkind : d.kind = .record r) : (emitBases nested record d r).Completes env scope := by
  have hbases := h.inRange_bases hd hkind
  simp only [Binding.emitBases, completes_bind, completes_symbols, gives_symbols, true_and, forall_eq]
  split
  · simp only [completes_bind, completes_markPointers, gives_markPointers, true_and, completes_ast,
      gives_ast, forall_eq]
    intro _ _
    refine ⟨h.baseRecords hbases, fun records hrecords => ⟨completes_collect fun id hid => ?_, ?_⟩⟩
    · obtain ⟨b, -, hb⟩ := exists_of_mem_baseRecords hrecords id hid
      exact h.flattenFrom nested (Nat.le_succ _) (h.tree.valid.ofRecordOf hb)
    · simp [h.emitTrampolines]
  · split
    · exact .pure
    · rename_i base _ hsome
      simp [h.mapType (hbases base (by simp [hsome]))]

/-! ## The struct -/

omit h in
theorem layoutAttribute (isUnion : Bool) (packed : Option UInt32) :
    (layoutAttribute isUnion packed).Completes env scope := by
  simp only [Binding.layoutAttribute]
  split <;> simp

omit h in
theorem basesAttribute (d : Decl) (hbases : ∀ b ∈ r.bases, env.HasType b.type) :
    (basesAttribute d r).Completes env scope := by
  simp only [Binding.basesAttribute]
  split
  · exact .pure
  · simp only [completes_bind, completes_ast, gives_ast, true_and, forall_eq]
    refine ⟨completes_forEach fun b hb => ?_, fun _ _ => .pure⟩
    simp [Ast.isSome_type?, hbases b hb]

theorem recordRule (hid : env.HasDecl id) (hnested : ∀ member, env.ast.MemberStep id member →
      (nested member).Completes env { scope with record := some id }) :
    (recordRule nested id).Completes env scope := by
  simp only [Binding.recordRule, completes_bind, completes_decl, gives_decl]
  refine ⟨hid, fun d hd => ?_⟩
  split
  · rename_i r hkind
    have hinside := h.enterRecord hid
    split
    · simp
    · simp only [completes_bind, completes_symbols, gives_symbols, true_and, forall_eq]
      split
      · simp [Result.Completes]
      · have hbody : (do
            let inherited ← Binding.emitBases nested id d r
            return inherited ++ (← Binding.emitMembers nested id (decide (r.tag = .union)) false)
            : Emit RecordItems).Completes env { scope with record := some id } := by
          simp [hinside.emitBases nested hd hkind, hinside.emitMembers hid _ fun _ => hnested]
        simp only [completes_bind, completes_within]
        refine ⟨completes_contained hbody, fun _ _ => ⟨layoutAttribute _ _, fun _ _ => ?_⟩⟩
        refine ⟨basesAttribute d (h.inRange_bases hd hkind), fun _ _ => ?_⟩
        exact ⟨h.typeObsoleteAttribute hid, fun _ _ => ⟨completes_nameOf, fun _ _ => .pure⟩⟩
  · exact .malformed

end Env.IntactIn

theorem Env.Intact.completes_recordTo (h : env.Intact) (hdepth : env.ast.decls.size ≤ depth)
    (hid : env.HasDecl id) : ∀ scope, env.IntactIn scope → (recordTo depth id).Completes env scope := by
  refine decl_induction h.tree.acyclic.members (inRange_of_memberStep h.tree.valid) ?_ hdepth hid
  intro depth id hid ih scope hscope
  refine hscope.recordRule hid fun member hmember => ?_
  exact ih member hmember _ (hscope.enterRecord hid)

theorem Env.IntactIn.emitRecord (h : env.IntactIn scope) (hid : env.HasDecl id) :
    (emitRecord id).Completes env scope := by
  simp [Binding.emitRecord, h.toIntact.completes_recordTo (Nat.le_succ _) hid scope h]

end Interop.Binding

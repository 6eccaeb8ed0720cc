import Interop.Binding.Bindings
import Interop.Proofs.Completion.References

/-!
# Lookups that succeed

In a valid tree without cycles every lookup succeeds that starts at a node of the tree: the walks
through types and expressions, the names of types, and everything that the table of symbols is built
from. Each function has a lemma that says so, and those that give a node have one that says that the
node lies in the tree.
-/

namespace Interop.Binding

open Native Managed Relation

variable {ast : Ast} {id : DeclId} {fuel : Nat}

theorem isSome_bind {o : Option α} {f : α → Option β} :
    (o >>= f).isSome ↔ o.isSome ∧ ∀ a, o = some a → (f a).isSome := by
  cases o <;> simp

theorem isSome_mapM {f : α → Option β} {as : List α} (h : ∀ a ∈ as, (f a).isSome) : (as.mapM f).isSome := by
  induction as with
  | nil => rfl
  | cons a as ih =>
    simp only [List.mapM_cons, isSome_bind]
    exact ⟨h a (.head _), fun _ _ => ⟨ih fun b hb => h b (.tail _ hb), fun _ _ => rfl⟩⟩

/-! ## Results that are not broken -/

namespace Result

variable {a : α} {as : List α} {f : α → Result β}

/-- Neither a reference is missing nor a chain endless. -/
def Completes (r : Result α) : Prop :=
  r ≠ .error .broken

@[simp] theorem completes_ok : Completes (.ok a) := by
  rintro ⟨⟩

@[simp] theorem completes_pure : Completes (pure a) :=
  completes_ok

@[simp] theorem completes_refuse : Completes (refuse node location reason : Result α) := by
  rintro ⟨⟩

@[simp] theorem completes_reject : Completes (reject node location reason : Result α) := by
  rintro ⟨⟩

@[simp] theorem completes_found : Completes (found o) ↔ o.isSome := by
  cases o <;> simp [Completes, found]

theorem completes_bind : Completes (r >>= f) ↔ Completes r ∧ ∀ a, r = .ok a → Completes (f a) := by
  cases r <;> simp [Completes, bind, Except.bind]

theorem completes_mapM (h : ∀ a ∈ as, Completes (f a)) : Completes (as.mapM f) := by
  induction as with
  | nil => exact completes_ok
  | cons a as ih =>
    simp only [List.mapM_cons, completes_bind]
    exact ⟨h a (.head _), fun _ _ => ⟨ih fun b hb => h b (.tail _ hb), fun _ _ => completes_pure⟩⟩

theorem completes_filterMapM {f : α → Result (Option β)} (h : ∀ a ∈ as, Completes (f a)) :
    Completes (as.filterMapM f) := by
  induction as with
  | nil => exact completes_ok
  | cons a as ih =>
    have hrest : Completes (as.filterMapM f) := ih fun b hb => h b (.tail _ hb)
    simp only [List.filterMapM_cons, completes_bind]
    refine ⟨h a (.head _), fun o _ => ?_⟩
    cases o with
    | none => exact hrest
    | some b => exact completes_bind.mpr ⟨hrest, fun _ _ => completes_pure⟩

end Result

open Result

theorem inRange_deprecatedTypedef {id : TypeId} (h : deprecatedTypedef? ast fuel id = some (some typedef)) :
    ast.inRange (.decl typedef) := by
  induction fuel generalizing id with
  | zero => cases h
  | succ fuel ih =>
    simp only [deprecatedTypedef?, bind, Option.bind_eq_some_iff] at h
    obtain ⟨t, -, h⟩ := h
    split at h
    · simp only [Option.bind_eq_some_iff] at h
      obtain ⟨d, hd, h⟩ := h
      split at h
      · cases h
        exact Ast.inRange_of_decl? hd
      · exact ih h
    · cases h

theorem mem_refs_of_directlyNamed (h : directlyNamed kind = some id) : .decl id ∈ kind.refs := by
  unfold directlyNamed at h
  split at h
  · cases h
    simp
  · cases h
    simp
  · cases h

theorem isSome_recordMembers (hid : ast.inRange (.decl id)) : (ast.recordMembers? id).isSome := by
  simp only [Ast.recordMembers?, isSome_bind]
  refine ⟨Ast.isSome_decl?.mpr hid, fun d _ => ?_⟩
  split <;> rfl

theorem isSome_recordChainFrom (hv : ast.Valid) (hparents : IsAcyclic ast.ParentStep)
    (hfuel : ast.decls.size ≤ fuel) (hid : ast.inRange (.decl id)) :
    (recordChainFrom ast fuel (some id)).isSome := by
  refine decl_induction hparents (inRange_of_parentStep hv) ?_ hfuel hid
  intro fuel id hid ih
  simp only [recordChainFrom, isSome_bind]
  refine ⟨Ast.isSome_decl?.mpr hid, fun d hd => ⟨?_, fun around _ => ?_⟩⟩
  · cases hparent : d.parent with
    | none => cases fuel <;> rfl
    | some parent => exact ih parent ⟨d, hd, hparent⟩
  · split <;> rfl

theorem isSome_recordChain (hv : ast.Valid) (hparents : IsAcyclic ast.ParentStep) {id : Option DeclId}
    (hid : ∀ r, id = some r → ast.inRange (.decl r)) : (recordChain? ast id).isSome := by
  simp only [recordChain?, Option.isSome_map]
  cases id with
  | none => rfl
  | some id => exact isSome_recordChainFrom hv hparents (Nat.le_succ _) (hid id rfl)

/-- Every reference leads to a node, and typedefs end; inheritance may still have cycles. -/
structure Resolved (ast : Ast) : Prop where
  valid : ast.Valid
  aliases : IsAcyclic ast.AliasStep

namespace Resolved

variable {id : TypeId}

variable {ast : Ast} (hr : Resolved ast)

include hr

theorem isSome_canonicalFrom (hfuel : ast.types.size ≤ fuel) (hid : ast.inRange (.type id)) :
    (ast.canonicalFrom fuel id).isSome := by
  have hinj : TypeId.index.Injective := fun ⟨_⟩ ⟨_⟩ h => congrArg TypeId.mk h
  have hbound : ∀ a b, ast.AliasStep a b → b.index < ast.types.size := by
    intro a b h
    obtain ⟨t, ht, hb⟩ := h.typeStep
    simpa [Ast.inRange] using hr.valid.ofType ht hb
  refine hr.aliases.induction hinj hbound (P := fun fuel id => (ast.canonicalFrom fuel id).isSome) ?_ hfuel
    (by simpa [Ast.inRange] using hid)
  intro fuel id hid ih
  simp only [Ast.canonicalFrom, isSome_bind]
  refine ⟨Ast.isSome_type?.mpr (by simpa [Ast.inRange] using hid), fun t ht => ?_⟩
  split
  · rename_i d underlying hkind
    exact ih _ (.single ⟨t, ht, .inl ⟨d, hkind⟩⟩)
  · rename_i name canonical hkind
    exact ih _ (.single ⟨t, ht, .inr ⟨name, hkind⟩⟩)
  · rfl

theorem isSome_canonical (hid : ast.inRange (.type id)) : (ast.canonical? id).isSome :=
  hr.isSome_canonicalFrom (Nat.le_refl _) hid

theorem inRange_canonical (hid : ast.inRange (.type id)) (h : ast.canonical? id = some target) :
    ast.inRange (.type target) := by
  rcases (Ast.reaches_of_canonicalFrom h).cases_tail with rfl | ⟨_, -, t, ht, htarget⟩
  · exact hid
  · exact hr.valid.ofType ht htarget

theorem isSome_canonicalKind (hid : ast.inRange (.type id)) : (ast.canonicalKind? id).isSome := by
  simp only [Ast.canonicalKind?, isSome_bind]
  refine ⟨hr.isSome_canonical hid, fun target htarget => ?_⟩
  exact ⟨Ast.isSome_type?.mpr (hr.inRange_canonical hid htarget), fun _ _ => rfl⟩

theorem isSome_recordOf (hid : ast.inRange (.type id)) : (ast.recordOf? id).isSome := by
  simp only [Ast.recordOf?, isSome_bind]
  refine ⟨hr.isSome_canonicalKind hid, fun kind _ => ?_⟩
  split <;> rfl

end Resolved

namespace Intact

variable {id : TypeId}

variable {ast : Ast} (hi : Intact ast) {fuel : Nat}

include hi

/-! ## Types -/

theorem resolved : Resolved ast :=
  ⟨hi.valid, fun a hcycle => hi.acyclic.types a (TransGen.mono (fun _ _ => Ast.AliasStep.typeStep) _ _ hcycle)⟩

theorem isSome_canonical (hid : ast.inRange (.type id)) : (ast.canonical? id).isSome :=
  hi.resolved.isSome_canonical hid

theorem inRange_canonical (hid : ast.inRange (.type id)) (h : ast.canonical? id = some target) :
    ast.inRange (.type target) :=
  hi.resolved.inRange_canonical hid h

theorem isSome_canonicalKind (hid : ast.inRange (.type id)) : (ast.canonicalKind? id).isSome :=
  hi.resolved.isSome_canonicalKind hid

theorem isSome_recordOf (hid : ast.inRange (.type id)) : (ast.recordOf? id).isSome :=
  hi.resolved.isSome_recordOf hid

theorem isSome_pointeeRecord (hid : ast.inRange (.type id)) : (ast.pointeeRecord? id).isSome := by
  simp only [Ast.pointeeRecord?, isSome_bind]
  refine ⟨hi.isSome_canonicalKind hid, fun kind hkind => ?_⟩
  have hrefs := fun r hr => hi.valid.ofCanonicalKind hkind (r := r) hr
  split
  · exact hi.isSome_recordOf (hrefs _ (by simp))
  · exact hi.isSome_recordOf (hrefs _ (by simp))
  · exact hi.isSome_recordOf (hrefs _ (by simp))
  · rfl

theorem inRange_pointeeRecord (h : ast.pointeeRecord? id = some (some record)) :
    ast.inRange (.decl record) := by
  simp only [Ast.pointeeRecord?, bind, Option.bind_eq_some_iff] at h
  obtain ⟨kind, -, h⟩ := h
  split at h
  · exact hi.valid.ofRecordOf h
  · exact hi.valid.ofRecordOf h
  · exact hi.valid.ofRecordOf h
  · cases h

theorem isSome_functionProto (hid : ast.inRange (.type id)) : (ast.functionProto? id).isSome := by
  simp only [Ast.functionProto?, isSome_bind]
  refine ⟨hi.isSome_canonical hid, fun target htarget => ?_⟩
  refine ⟨Ast.isSome_type?.mpr (hi.inRange_canonical hid htarget), fun t ht => ?_⟩
  split
  · rfl
  · rename_i pointee hkind
    have hpointee : ast.inRange (.type pointee) :=
      hi.valid.ofType ht (by simp [*])
    simp only [isSome_bind]
    refine ⟨hi.isSome_canonical hpointee, fun inner hinner => ?_⟩
    refine ⟨Ast.isSome_type?.mpr (hi.inRange_canonical hpointee hinner), fun t' _ => ?_⟩
    split <;> rfl
  · rfl

theorem inRange_functionProto (hid : ast.inRange (.type id))
    (h : ast.functionProto? id = some (some proto)) : ast.inRange (.type proto) := by
  simp only [Ast.functionProto?, bind, Option.bind_eq_some_iff] at h
  obtain ⟨target, htarget, t, ht, h⟩ := h
  split at h
  · cases h
    exact hi.inRange_canonical hid htarget
  · rename_i pointee hkind
    simp only [Option.bind_eq_some_iff] at h
    obtain ⟨inner, hinner, t', -, h⟩ := h
    have hpointee : ast.inRange (.type pointee) :=
      hi.valid.ofType ht (by simp [*])
    split at h
    · cases h
      exact hi.inRange_canonical hpointee hinner
    · cases h
  · cases h

theorem isSome_deprecatedTypedef (hfuel : ast.types.size ≤ fuel) (hid : ast.inRange (.type id)) :
    (deprecatedTypedef? ast fuel id).isSome := by
  refine hi.type_induction ?_ hfuel hid
  intro fuel id hid ih
  simp only [deprecatedTypedef?, isSome_bind]
  refine ⟨Ast.isSome_type?.mpr hid, fun t ht => ?_⟩
  split
  · rename_i typedef underlying hkind
    simp only [isSome_bind]
    refine ⟨Ast.isSome_decl?.mpr (hi.valid.ofType ht (by simp [*])), fun d _ => ?_⟩
    split
    · rfl
    · exact ih _ (.single ⟨t, ht, by simp [hkind]⟩)
  · rfl

theorem inRange_recordMembers {id : DeclId} (h : ast.recordMembers? id = some members) :
    ∀ member ∈ members, ast.inRange (.decl member) := by
  simp only [Ast.recordMembers?, bind, Option.bind_eq_some_iff] at h
  obtain ⟨d, hd, h⟩ := h
  intro member hmember
  split at h
  · cases h
    exact hi.valid.ofDecl hd (by simp [*])
  · cases h
    cases hmember

/-! ## Expressions -/

theorem exists_end_of_walk {walk : Nat → ExprId → Option ExprId}
    (hwalk : ∀ fuel id e, ast.expr? id = some e → walk (fuel + 1) id = some id ∨
      ∃ inner, .expr inner ∈ e.kind.refs ∧ walk (fuel + 1) id = walk fuel inner)
    (hfuel : ast.exprs.size ≤ fuel) {id : ExprId} (hid : ast.inRange (.expr id)) :
    ∃ inner, walk fuel id = some inner ∧ ReflTransGen ast.ExprStep id inner := by
  refine hi.expr_induction ?_ hfuel hid
  intro fuel id hid ih
  obtain ⟨e, he⟩ := Option.isSome_iff_exists.mp (Ast.isSome_expr?.mpr hid)
  rcases hwalk fuel id e he with hstay | ⟨inner, hinner, hgo⟩
  · exact ⟨id, hstay, .refl⟩
  · have hstep : ast.ExprStep id inner := ⟨e, he, hinner⟩
    obtain ⟨last, hlast, hreach⟩ := ih inner (.single hstep)
    exact ⟨last, hgo.trans hlast, .head hstep hreach⟩

theorem exists_ignoreImplicit {id : ExprId} (hid : ast.inRange (.expr id)) :
    ∃ inner, ast.ignoreImplicit? id = some inner ∧ ReflTransGen ast.ExprStep id inner := by
  refine hi.exists_end_of_walk ?_ (Nat.le_refl _) hid
  intro fuel id e he
  simp only [Ast.ignoreImplicitFrom, he, bind, Option.bind_some]
  split
  · rename_i inner hkind
    exact .inr ⟨inner, by simp [hkind], rfl⟩
  · rename_i cast inner hkind
    exact .inr ⟨inner, by simp [hkind], rfl⟩
  · exact .inl rfl

theorem exists_ignoreParens {id : ExprId} (hid : ast.inRange (.expr id)) :
    ∃ inner, ignoreParensFrom ast ast.exprs.size id = some inner ∧ ReflTransGen ast.ExprStep id inner := by
  refine hi.exists_end_of_walk ?_ (Nat.le_refl _) hid
  intro fuel id e he
  simp only [ignoreParensFrom, he, bind, Option.bind_some]
  split
  · rename_i inner hkind
    exact .inr ⟨inner, by simp [hkind], rfl⟩
  · exact .inl rfl

theorem exists_namedObject {id : ExprId} (hid : ast.inRange (.expr id)) :
    ∃ inner, namedObjectFrom ast ast.exprs.size id = some inner ∧ ReflTransGen ast.ExprStep id inner := by
  refine hi.exists_end_of_walk ?_ (Nat.le_refl _) hid
  intro fuel id e he
  simp only [namedObjectFrom, he, bind, Option.bind_some]
  split
  · rename_i inner hkind
    exact .inr ⟨inner, by simp [hkind], rfl⟩
  · rename_i inner hkind
    exact .inr ⟨inner, by simp [hkind], rfl⟩
  · rename_i inner hkind
    exact .inr ⟨inner, by simp [hkind], rfl⟩
  · exact .inl rfl

theorem inRange_of_reaches {id inner : ExprId} (hid : ast.inRange (.expr id))
    (h : ReflTransGen ast.ExprStep id inner) : ast.inRange (.expr inner) := by
  rcases h.cases_tail with rfl | ⟨_, -, e, he, hinner⟩
  · exact hid
  · exact hi.valid.ofExpr he hinner

/-! ## Names of types -/

theorem isSome_nativeSpelling (symbols : Symbols) {type : TypeId} (htype : ast.inRange (.type type)) :
    (nativeSpelling? ast symbols type).isSome := by
  simp only [nativeSpelling?, isSome_bind]
  refine ⟨Ast.isSome_type?.mpr htype, fun t ht => ?_⟩
  split
  · rename_i id hnamed
    have hid : ast.inRange (.decl id) := hi.valid.ofType ht (mem_refs_of_directlyNamed hnamed)
    simp only [isSome_bind]
    refine ⟨Ast.isSome_decl?.mpr hid, fun d _ => ?_⟩
    split <;> rfl
  · rfl

theorem isSome_qualifiedName {symbols : Symbols} {id : DeclId} {scope : Option DeclId}
    (hid : ast.inRange (.decl (symbols.definition id)))
    (hscope : ∀ r, scope = some r → ast.inRange (.decl r)) :
    (qualifiedName? ast symbols id scope).isSome := by
  simp only [qualifiedName?, isSome_bind]
  have hparents := hi.acyclic.parents
  refine ⟨isSome_recordChain hi.valid hparents ?_, fun _ _ =>
    ⟨isSome_recordChain hi.valid hparents hscope, fun _ _ => rfl⟩⟩
  rintro r ⟨⟩
  exact hid

end Intact

/-! ## Mapped types -/

namespace TypeContext

theorem completes_functionPointer {c : TypeContext} {managed : TypeId → Usage → Result (TypeName × Bool)}
    {proto : TypeId} (hproto : c.ast.inRange (.type proto))
    (hmanaged : ∀ b, c.ast.TypeStep proto b → ∀ usage, Completes (managed b usage)) :
    Completes (c.functionPointer managed proto) := by
  simp only [functionPointer, completes_bind, completes_found]
  refine ⟨Ast.isSome_type?.mpr hproto, fun t ht => ?_⟩
  have ht := found_eq_ok.mp ht
  split
  · rename_i p hkind
    split
    · exact completes_refuse
    split
    · exact completes_refuse
    have hstep : ∀ b ∈ p.result :: p.params, c.ast.TypeStep proto b := by
      intro b hb
      refine ⟨t, ht, ?_⟩
      simpa [hkind] using hb
    simp only [completes_bind]
    refine ⟨completes_mapM fun b hb => ?_, fun _ _ => ⟨hmanaged _ (hstep _ (.head _)) _, ?_⟩⟩
    · exact completes_bind.mpr ⟨hmanaged b (hstep b (.tail _ hb)) _, fun _ _ => completes_pure⟩
    · exact fun _ _ => completes_pure
  · exact completes_reject

structure Intact (c : TypeContext) : Prop where
  tree : Binding.Intact c.ast
  definition : ∀ id, c.ast.inRange (.decl id) → c.ast.inRange (.decl (c.symbols.definition id))
  scope : ∀ record, c.scope = some record → c.ast.inRange (.decl record)

namespace Intact

variable {c : TypeContext} (hc : c.Intact)

include hc

theorem completes_isFunction (htype : c.ast.inRange (.type type)) : Completes (c.isFunction type) := by
  simp only [isFunction, completes_bind, completes_found]
  refine ⟨hc.tree.isSome_canonicalKind htype, fun kind _ => ?_⟩
  split <;> exact completes_pure

theorem completes_isArray (htype : c.ast.inRange (.type type)) : Completes (c.isArray type) := by
  simp only [isArray, completes_bind, completes_found]
  refine ⟨hc.tree.isSome_canonicalKind htype, fun kind _ => ?_⟩
  split <;> exact completes_pure

theorem completes_pointerTo (htarget : c.ast.inRange (.type target))
    (hmanaged : ∀ b, Relation.ReflTransGen c.ast.TypeStep target b → ∀ usage, Completes (managed b usage)) :
    Completes (c.pointerTo managed target) := by
  simp only [pointerTo, completes_bind]
  refine ⟨hc.completes_isFunction htarget, fun isFunction _ => ?_⟩
  split
  · simp only [completes_bind, completes_found]
    refine ⟨hc.tree.isSome_canonical htarget, fun proto hproto => ?_⟩
    have hproto := found_eq_ok.mp hproto
    refine completes_functionPointer (hc.tree.inRange_canonical htarget hproto) fun b hb => ?_
    exact hmanaged b (.tail (Ast.reaches_of_canonicalFrom hproto) hb)
  · exact completes_bind.mpr ⟨hmanaged target .refl _, fun _ _ => completes_pure⟩

theorem completes_arrayOf (helement : c.ast.inRange (.type element)) (isComplete : Bool) (usage : Usage)
    (hmanaged : ∀ usage, Completes (managed element usage)) :
    Completes (c.arrayOf managed element isComplete usage) := by
  simp only [arrayOf, completes_bind]
  refine ⟨hmanaged _, fun (inner, usesPointers) _ => ?_⟩
  dsimp only
  split
  · simp only [completes_bind]
    refine ⟨hc.completes_isArray helement, fun isArray _ => ?_⟩
    split
    · exact completes_refuse
    · exact completes_pure
  · exact completes_pure

theorem completes_managedFrom {fuel : Nat} (hfuel : c.ast.types.size ≤ fuel)
    (htype : c.ast.inRange (.type type)) : ∀ usage, Completes (c.managedFrom fuel type usage) := by
  refine hc.tree.type_induction ?_ hfuel htype
  intro fuel type htype ih usage
  simp only [managedFrom, completes_bind, completes_found]
  refine ⟨Ast.isSome_type?.mpr htype, fun t ht => ?_⟩
  have ht := found_eq_ok.mp ht
  have hrefs := fun r hr => hc.tree.valid.ofType ht (r := r) hr
  have hbelow : ∀ b, .type b ∈ t.kind.refs → ∀ usage, Completes (c.managedFrom fuel b usage) :=
    fun b hb => ih b (.single ⟨t, ht, hb⟩)
  have hpointer : ∀ target, .type target ∈ t.kind.refs →
      Completes (c.pointerTo (c.managedFrom fuel) target) := fun target htarget =>
    hc.completes_pointerTo (hrefs _ htarget) fun b hb => ih b (.head' ⟨t, ht, htarget⟩ hb)
  have harray : ∀ element isComplete, .type element ∈ t.kind.refs →
      Completes (c.arrayOf (c.managedFrom fuel) element isComplete usage) :=
    fun element isComplete helement =>
      hc.completes_arrayOf (hrefs _ helement) isComplete usage (hbelow element helement)
  have hnamed : ∀ decl, .decl decl ∈ t.kind.refs →
      (qualifiedName? c.ast c.symbols decl c.scope).isSome := fun decl hdecl =>
    hc.tree.isSome_qualifiedName (hc.definition decl (hrefs _ hdecl)) hc.scope
  cases hkind : t.kind with
  | builtin kind =>
    dsimp only
    split
    · exact completes_pure
    · exact completes_refuse
  | pointer target => exact hpointer target (by simp [hkind])
  | lvalueReference target => exact hpointer target (by simp [hkind])
  | rvalueReference target => exact hpointer target (by simp [hkind])
  | constantArray element size => exact harray element _ (by simp [hkind])
  | incompleteArray element => exact harray element _ (by simp [hkind])
  | function proto =>
    dsimp only
    split
    · exact completes_functionPointer htype fun b hb => ih b (.single hb)
    · exact completes_refuse
  | record decl =>
    simp only [completes_bind, completes_found]
    exact ⟨hnamed decl (by simp [hkind]), fun _ _ => completes_pure⟩
  | enum decl =>
    simp only [completes_bind, completes_found]
    exact ⟨hnamed decl (by simp [hkind]), fun _ _ => completes_pure⟩
  | typedef decl underlying =>
    simp only [completes_bind, completes_found]
    refine ⟨Ast.isSome_decl?.mpr (hrefs _ (by simp [hkind])), fun d _ => ?_⟩
    split
    · exact completes_pure
    · exact hbelow underlying (by simp [hkind]) usage
  | specialization template canonical =>
    cases canonical with
    | none => exact completes_refuse
    | some canonical => exact hbelow canonical (by simp [hkind]) usage
  | unexposed => exact completes_refuse

theorem completes_map (htype : c.ast.inRange (.type type)) (usage : Usage) :
    Completes (c.map type usage) := by
  simp only [map, completes_bind, completes_found]
  refine ⟨hc.completes_managedFrom (Nat.le_succ _) htype usage, fun (name, usesPointers) _ => ?_⟩
  exact ⟨hc.tree.isSome_nativeSpelling c.symbols htype, fun _ _ => completes_pure⟩

end Intact

end TypeContext

end Interop.Binding
